import JsonPull.Proofs.Quotation.Body
import JsonPull.Proofs.Value.Tokenizer

/-! # Strings in all forms

A string is consumed and counted in the same way in whatever form it is asked for. Then its text is
a date, bytes, a number or a truth value, if the form has it and the text writes one. -/

namespace JsonPull

open JsonPull.Json JsonPull.Quotation

variable {settings : Settings} {stream rest body : List UInt8} {s s' : State} {pos pos' : Nat}
  {quote : UInt8} {items : List Item} {request : Request} {c : Call} {text : String}

/-! ## Strings without escapes -/

theorem Quotation.spells_bytes (h : ∀ b ∈ body, b ≠ quote ∧ b ≠ 0x5C) :
    Spells quote (body.map .byte) body := by
  induction body with
  | nil => exact .nil
  | cons b body ih =>
      obtain ⟨hquote, hbackslash⟩ := h b (by simp)
      exact .byte hquote hbackslash (ih fun b' hb' => h b' (by simp [hb']))

theorem Quotation.text_bytes (body : List UInt8) :
    Quotation.text (body.map .byte) = Text.ofBytes body := by
  rw [← ofBytes_output]
  simpa [output] using congrArg Text.ofBytes (output_bytes body [])

namespace Reading

/-! ## Publishing -/

/-- A string is consumed and counted before it is published. -/
theorem succeeds_stringValue_body (hquote : quote = 0x22 ∨ quote = 0x27)
    (hbody : Spells quote items body) (h : Ahead stream pos (quote :: (body ++ quote :: rest)))
    {post : Unit → State → Nat → Prop}
    (hpublish : ∀ b s₁ s₂ pos', b.text stream = Quotation.text items → s.Same s₁ →
      (s₁.completeValue settings).countElement.Same s₂ → Ahead stream pos' rest →
      (if request = .bytes then publishBytes b
        else publishText (request.dates settings) b).Succeeds settings stream s₂ pos' post) :
    (stringValue quote request).Succeeds settings stream s pos post := by
  unfold stringValue
  rw [succeeds_bind]
  refine (succeeds_quoted_spells hquote hbody h).mono ?_
  rintro b s₁ pos₁ ⟨hsame, hb, hrest⟩
  have hmarked : (s₁.completeValue settings).countElement.Same
      { (s₁.completeValue settings).countElement with quote := some quote } := ⟨rfl, rfl, rfl, rfl⟩
  have hpublished := hpublish b s₁ _ pos₁ hb hsame hmarked hrest
  rw [succeeds_bind, succeeds_finishValue, succeeds_bind, succeeds_modify]
  by_cases hbytes : request = .bytes
  · rw [if_pos hbytes] at hpublished ⊢
    exact hpublished
  · rw [if_neg hbytes] at hpublished ⊢
    rw [succeeds_bind, succeeds_read]
    exact hpublished

/-- A string is published as a date if it is one and dates are wanted, and else as its text. -/
theorem succeeds_stringValue_text (hbytes : request ≠ .bytes) (hquote : quote = 0x22 ∨ quote = 0x27)
    (hbody : Spells quote items body) (h : Ahead stream pos (quote :: (body ++ quote :: rest))) :
    (stringValue quote request).Succeeds settings stream s pos fun _ =>
      Published settings stream (textEntry (request.dates settings) (Quotation.text items)).1
        (some (textEntry (request.dates settings) (Quotation.text items)).2) rest s := by
  refine succeeds_stringValue_body hquote hbody h fun b s₁ s₂ pos' hb hsame hcounted hrest => ?_
  rw [if_neg hbytes]
  refine (succeeds_publishText _ hb hcounted hrest).mono ?_
  exact fun _ _ _ hpublished => hpublished.of_same hsame

/-- A string is published as the bytes that it writes. -/
theorem succeeds_stringValue_bytes {data : List UInt8}
    (hdata : Payload.ofText (Quotation.text items) = .ok data)
    (hquote : quote = 0x22 ∨ quote = 0x27) (hbody : Spells quote items body)
    (h : Ahead stream pos (quote :: (body ++ quote :: rest))) :
    (stringValue quote .bytes).Succeeds settings stream s pos fun _ =>
      Published settings stream .bytes (some (.bytes data)) rest s := by
  refine succeeds_stringValue_body hquote hbody h fun b s₁ s₂ pos' hb hsame hcounted hrest => ?_
  rw [if_pos rfl]
  unfold publishBytes
  rw [succeeds_bind, succeeds_bodyText, hb, hdata]
  refine (succeeds_update _).mpr ?_
  have hslot : (Slot.owned (.bytes data)).value? stream = some (.bytes data) := rfl
  have hpublished : Published settings stream .bytes (some (.bytes data)) rest s₁ _ pos' :=
    published_of_counted hslot hcounted hrest
  exact hpublished.of_same hsame

/-! ## Conversions -/

theorem convertText_none (hconversion : request.conversion? = none) :
    convertText request = pure () := by
  unfold convertText
  rw [hconversion]

/-- The quote announces a reading that publishes the text, where no other form is asked for. -/
theorem lands_announced_text (settings : Settings) (stream rest : List UInt8)
    (hbytes : c.request ≠ .bytes) (hconversion : c.request.conversion? = none)
    (hquote : quote = 0x22 ∨ quote = 0x27) (hbody : Spells quote items body) :
    ∃ x, scalar? c (Lead.ofByte quote) = some x ∧
      ∀ s pos, Ahead stream pos (quote :: (body ++ quote :: rest)) →
        x.Lands settings stream s pos (Converted settings stream rest s
          (.ok (textEntry (c.request.dates settings) (Quotation.text items)))) := by
  have hstring : ∀ s pos, Ahead stream pos (quote :: (body ++ quote :: rest)) →
      (stringValue quote c.request).Succeeds settings stream s pos fun _ =>
        Published settings stream _ (some _) rest s :=
    fun s pos h => succeeds_stringValue_text hbytes hquote hbody h
  rw [(lead_quote hquote).1]
  cases c with
  | read =>
      refine ⟨_, rfl, fun s pos h => Succeeds.lands ?_⟩
      exact (hstring s pos h).mono fun _ _ _ hpublished => ⟨rfl, hpublished⟩
  | readAs form =>
      refine ⟨_, rfl, fun s pos h => Succeeds.lands ?_⟩
      rw [succeeds_bind]
      have hnone : convertText form.request = pure () := convertText_none hconversion
      refine (hstring s pos h).mono fun _ s' pos' hpublished => ?_
      rw [hnone, succeeds_pure]
      exact ⟨rfl, hpublished⟩

end Reading

open Reading

namespace Tokenizer

variable {t : Tokenizer}

/-- A call for no number, truth value or bytes reads a string as a date or as its text. -/
theorem Sound.reads_text (h : t.Sound stream) (hexpects : t.nextPhase.expectsValue = true)
    (hbytes : c.request ≠ .bytes) (hconversion : c.request.conversion? = none)
    (hquote : quote = 0x22 ∨ quote = 0x27) (hbody : Spells quote items body)
    (hfaces : t.Faces stream (quote :: (body ++ quote :: rest))) {kind : Scalar} {v : Value}
    (hentry : textEntry (c.request.dates t.options.settings) (Quotation.text items) = (kind, v)) :
    t.Reads c (some (c.answer (some v) c.done, kind, v)) := by
  obtain ⟨x, hx, hlands⟩ := lands_announced_text t.options.settings stream rest hbytes hconversion
    hquote hbody
  rw [hentry] at hlands
  exact h.reads_converted hx (lead_quote hquote).2 hexpects hfaces hlands

end Tokenizer

end JsonPull
