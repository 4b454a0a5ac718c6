import JsonPull.Proofs.Json.Scalar

/-! # Numbers and strings as a whole

A number is as long as the bytes that a number may consist of, if something follows that may end it.
A string is as long as its closing quote is far, if its escapes are well formed. Whether either can be
converted plays no part in that. -/

namespace JsonPull

/-- What a string is behind its opening quote: bytes that stand for themselves, escapes, and the
closing quote. -/
inductive Closes (quote : UInt8) : List UInt8 → Prop where
  | quote : Closes quote [quote]
  | plain {b : UInt8} {body : List UInt8} (hquote : b ≠ quote) (hbackslash : b ≠ 0x5C)
      (h : Closes quote body) : Closes quote (b :: body)
  | letter {b : UInt8} {body : List UInt8}
      (hletter : b ∈ [0x22, 0x27, 0x5C, 0x2F, 0x62, 0x66, 0x6E, 0x72, 0x74])
      (h : Closes quote body) : Closes quote (0x5C :: b :: body)
  | unit {n : Nat} {digits body : List UInt8} (hunit : Json.IsUnit digits n)
      (h : Closes quote body) : Closes quote (0x5C :: 0x75 :: (digits ++ body))

/-- A number or a string, with the bytes behind it. -/
inductive IsScalar : List UInt8 → List UInt8 → Prop where
  | number {b : UInt8} {more rest : List UInt8}
      (hfirst : Number.isDigit b = true ∨ b = 0x2D ∨ b = 0x2E)
      (hbytes : ∀ b' ∈ b :: more, Lexeme.isByte b' = true) (hrest : Terminates rest) :
      IsScalar (b :: more) rest
  | quoted {quote : UInt8} {body rest : List UInt8} (hquote : quote = 0x22 ∨ quote = 0x27)
      (h : Closes quote body) : IsScalar (quote :: body) rest

variable {settings : Settings} {stream rest bytes body : List UInt8} {s : State} {pos : Nat}
  {quote : UInt8}

/-! ## Strings -/

/-- Where the end of a string is looked for, the escape of a unit is there as a whole. -/
theorem Closes.unit_ahead {more : List UInt8} (hbody : Closes quote body) (hquote : quote ≠ 0x5C)
    (h : body ++ rest = 0x5C :: 0x75 :: more) :
    ∃ n digits after, Json.IsUnit digits n ∧ Closes quote after ∧
      body = 0x5C :: 0x75 :: (digits ++ after) := by
  cases hbody with
  | quote => exact absurd (List.cons.inj h).1 hquote
  | plain hne hbackslash => exact absurd (List.cons.inj h).1 hbackslash
  | letter hletter =>
      have hb := (List.cons.inj (List.cons.inj h).2).1
      rw [hb] at hletter
      exact absurd hletter (by decide)
  | unit hunit hafter => exact ⟨_, _, _, hunit, hafter, rfl⟩

theorem Closes.feed_ahead {more : List UInt8} (hbody : Closes quote body) (hquote : quote ≠ 0x0A)
    (h : body ++ rest = 0x0A :: more) : ∃ after, Closes quote after ∧ body = 0x0A :: after := by
  cases hbody with
  | quote => exact absurd (List.cons.inj h).1 hquote
  | plain hne hbackslash hafter =>
      obtain rfl := (List.cons.inj h).1
      exact ⟨_, hafter, rfl⟩
  | letter => cases (List.cons.inj h).1
  | unit => cases (List.cons.inj h).1

namespace Reading

open JsonPull.Json

/-- Behind a high surrogate, whole escapes are passed. -/
theorem succeeds_surrogates_closes (hquote : quote ≠ 0x5C) (hbody : Closes quote body)
    (h : Ahead stream pos (body ++ rest)) (x : List Char × Nat) :
    (repeating surrogateTurn x).Succeeds settings stream s pos fun _ s' pos' =>
      s' = s ∧ pos ≤ pos' ∧ ∃ after, Closes quote after ∧ Ahead stream pos' (after ++ rest) ∧
        pos' + after.length = pos + body.length := by
  induction hlength : body.length using Nat.strong_induction_on generalizing body pos x with
  | _ length ih =>
      subst hlength
      obtain ⟨chars, high⟩ := x
      by_cases hnext : ∃ more, body ++ rest = 0x5C :: 0x75 :: more
      · obtain ⟨more, hmore⟩ := hnext
        obtain ⟨n, digits, after, hunit, hafter, rfl⟩ := hbody.unit_ahead hquote hmore
        rw [List.cons_append, List.cons_append, List.append_assoc] at h
        have hahead := hunit.skip h
        have hcount : pos + 6 + after.length = pos + (0x5C :: 0x75 :: (digits ++ after)).length := by
          simp only [List.length_cons, List.length_append, hunit.length]
          omega
        apply succeeds_repeating
        rw [succeeds_surrogateTurn hunit _ _ h]
        split
        · exact ⟨rfl, by omega, after, hafter, hahead, hcount⟩
        · split
          · refine ⟨by omega, h.lt, ?_⟩
            refine (ih after.length ?_ hafter hahead _ rfl).mono ?_
            · simp only [List.length_cons, List.length_append]
              omega
            · rintro _ s' pos' ⟨rfl, hle, last, hlast, hahead', hcount'⟩
              exact ⟨rfl, by omega, last, hlast, hahead', hcount'.trans hcount⟩
          · exact ⟨rfl, by omega, after, hafter, hahead, hcount⟩
      · apply succeeds_repeating
        rw [succeeds_surrogateTurn_alone (fun more hmore => hnext ⟨more, hmore⟩) _ _ h]
        exact ⟨rfl, le_rfl, body, hbody, h, rfl⟩

theorem succeeds_bodyTurn_return {first : Nat} {p : Partial}
    (h : Ahead stream pos (0x0D :: rest)) {post : Turn Partial Body → State → Nat → Prop} :
    (bodyTurn quote first p).Succeeds settings stream s pos post ↔
      (takeReturn .all).Succeeds settings stream s pos fun _ => post (.again p) := by
  unfold bodyTurn
  rw [succeeds_bind, succeeds_byte?, h.head?]
  change (takeReturn .all >>= fun _ => pure (Turn.again p)).Succeeds _ _ _ _ _ ↔ _
  simp only [succeeds_bind, succeeds_pure]

theorem succeeds_bodyTurn_feed {first : Nat} {p : Partial}
    (h : Ahead stream pos (0x0A :: rest)) {post : Turn Partial Body → State → Nat → Prop} :
    (bodyTurn quote first p).Succeeds settings stream s pos post ↔
      post (.again p) { s with lines := s.lines.next (pos + 1) } (pos + 1) := by
  unfold bodyTurn
  rw [succeeds_bind, succeeds_byte?, h.head?]
  change (takeFeed >>= fun _ => pure (Turn.again p)).Succeeds _ _ _ _ _ ↔ _
  simp only [succeeds_bind, succeeds_takeFeed, succeeds_pure]

/-- The body of a string is passed up to its closing quote. -/
theorem succeeds_bodyTurns_closes (hquote : quote ≠ 0x5C ∧ quote ≠ 0x0D ∧ quote ≠ 0x0A)
    (hbody : Closes quote body) (h : Ahead stream pos (body ++ rest)) (first : Nat) (p : Partial) :
    (repeating (bodyTurn quote first) p).Succeeds settings stream s pos fun _ s' pos' =>
      s.Same s' ∧ pos' = pos + body.length := by
  induction hlength : body.length using Nat.strong_induction_on generalizing body pos s p with
  | _ length ih =>
      subst hlength
      -- What a turn consumes is missing from the body that is left.
      have hagain : ∀ {after : List UInt8} {pos₁ : Nat} {s₁ : State} (p₁ : Partial),
          Closes quote after → Ahead stream pos₁ (after ++ rest) →
          pos₁ + after.length = pos + body.length → pos < pos₁ → s.Same s₁ →
          Turn.Reaches (bodyTurn quote first) settings stream pos
            (fun _ s' pos' => s.Same s' ∧ pos' = pos + body.length) (.again p₁) s₁ pos₁ := by
        intro after pos₁ s₁ p₁ hafter hahead hcount hlt hsame
        have hbegin : pos < stream.length := by
          cases hbody <;> exact h.lt
        refine ⟨hlt, hbegin, (ih after.length (by omega) hafter hahead p₁ rfl).mono ?_⟩
        rintro _ s' pos' ⟨hsame', rfl⟩
        exact ⟨hsame.trans hsame', hcount⟩
      apply succeeds_repeating
      cases hbody with
      | quote => exact (succeeds_bodyTurn_quote hquote h).mpr ⟨.refl s, rfl⟩
      | @plain b after hne hbackslash hafter =>
          have hcount : pos + 1 + after.length = pos + (b :: after).length := by
            simp only [List.length_cons]
            omega
          by_cases hreturn : b = 0x0D
          · subst hreturn
            rw [succeeds_bodyTurn_return h]
            apply succeeds_takeReturn h
            · intro more s' hmore hsame
              obtain ⟨last, hlast, rfl⟩ := hafter.feed_ahead hquote.2.2 hmore
              refine hagain p hlast h.tail.tail ?_ (by omega) hsame
              simp only [List.length_cons]
              omega
            · intro s' _ hsame
              exact hagain p hafter h.tail hcount (by omega) hsame
          by_cases hfeed : b = 0x0A
          · subst hfeed
            rw [succeeds_bodyTurn_feed h]
            exact hagain p hafter h.tail hcount (by omega) (same_lines s _)
          · rw [succeeds_bodyTurn_plain ⟨hbackslash, hreturn, hfeed, hne⟩ h]
            exact hagain p hafter h.tail hcount (by omega) (.refl s)
      | @letter b after hletter hafter =>
          have hescape : ∃ c, b < 0x80 ∧ Text.simpleEscape? (Char.ofNat b.toNat) = some c := by
            simp only [List.mem_cons, List.not_mem_nil, or_false] at hletter
            rcases hletter with rfl | rfl | rfl | rfl | rfl | rfl | rfl | rfl | rfl <;>
              exact ⟨_, by decide, rfl⟩
          obtain ⟨c, hb, hc⟩ := hescape
          apply succeeds_bodyTurn_escape h
          rw [succeeds_escape_simple hb hc h]
          refine hagain _ hafter h.tail.tail ?_ (by omega) (.refl s)
          simp only [List.length_cons]
          omega
      | @unit n digits after hunit hafter =>
          rw [List.cons_append, List.cons_append, List.append_assoc] at h
          have hahead := hunit.skip h
          have hcount : pos + 6 + after.length =
              pos + (0x5C :: 0x75 :: (digits ++ after)).length := by
            simp only [List.length_cons, List.length_append, hunit.length]
            omega
          apply succeeds_bodyTurn_escape h
          rw [succeeds_escape_unicode h, unicodeEscape, succeeds_bind,
            succeeds_escapeUnit hunit h.tail.tail]
          split
          · refine (succeeds_surrogates_closes hquote.1 hafter hahead _).mono ?_
            rintro _ s' pos' ⟨rfl, hle, last, hlast, hahead', hcount'⟩
            exact hagain _ hlast hahead' (hcount'.trans hcount) (by omega) (.refl s')
          · exact (succeeds_pure _).mpr (hagain _ hafter hahead hcount (by omega) (.refl s))

theorem succeeds_quoted_closes (hquote : quote ≠ 0x5C ∧ quote ≠ 0x0D ∧ quote ≠ 0x0A)
    (hbody : Closes quote body) (h : Ahead stream pos (quote :: (body ++ rest))) :
    (quoted quote).Succeeds settings stream s pos fun _ s' pos' =>
      s.Same s' ∧ pos' = pos + (quote :: body).length := by
  unfold quoted
  rw [succeeds_bind, succeeds_advance, succeeds_bind, succeeds_settle, Reading.body, succeeds_bind,
    succeeds_cursor]
  refine (succeeds_bodyTurns_closes hquote hbody h.tail _ _).mono ?_
  rintro _ s' pos' ⟨hsame, rfl⟩
  refine ⟨hsame, ?_⟩
  simp only [List.length_cons]
  omega

end Reading

end JsonPull
