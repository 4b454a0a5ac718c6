import JsonPull.Proofs.Reading.Numeric
import JsonPull.Reader.Quoted

/-! # Quoted strings

The body of a string stays within what is held, so that its text can be taken from there. -/

namespace JsonPull.Reading

open State

variable {total : Nat} {settings : Settings} {s : State} {d : Reach total}

/-! ## Escapes -/

theorem proceeds_escapeUnit :
    escapeUnit.Proceeds .all settings s d fun _ _ d' => d.pos < d'.pos := by
  refine (proceeds_bytes? 0 3).bind fun r s₁ d₁ _ h₁ => ?_
  cases r with
  | none => exact proceeds_fail rfl
  | some digits =>
      have hlast := h₁.2 digits rfl
      dsimp only
      split
      · refine (proceeds_advance _ (by omega)).bind fun _ s₂ d₂ _ h₂ => ?_
        exact .pure (by omega)
      · exact proceeds_fail rfl

theorem proceeds_surrogates (high : Nat) :
    (surrogates high).Proceeds .all settings s d fun _ _ _ => True := by
  refine .repeating (fun _ _ _ => True) ?_ trivial
  rintro ⟨chars, high⟩ s d -
  refine (proceeds_byte? 1).bind fun second s₁ d₁ _ h₁ => ?_
  refine (proceeds_byte? 0).bind fun first s₂ d₂ h₂ hfirst => ?_
  split
  · rename_i hboth
    have hsecond : second = some 0x75 := by simpa using (Bool.and_eq_true_iff.mp hboth).2
    have hseen := h₁.2 _ hsecond
    have hle := h₂.seen_le
    refine (proceeds_advance _ (by omega)).bind fun _ s₃ d₃ _ h₃ => ?_
    refine proceeds_escapeUnit.bind fun unit s₄ d₄ _ h₄ => ?_
    split
    · exact .pure trivial
    · split
      · exact .pure ⟨trivial, by omega⟩
      · exact .pure trivial
  · exact .pure trivial

theorem proceeds_unicodeEscape :
    unicodeEscape.Proceeds .all settings s d fun _ _ _ => True := by
  refine proceeds_escapeUnit.bind fun unit s₁ d₁ _ _ => ?_
  split
  · exact proceeds_surrogates _
  · exact .pure trivial

theorem proceeds_escapeLetter (quote : UInt8) (h : d.pos < d.seen) :
    (escapeLetter quote).Proceeds .all settings s d
      fun letter _ d' => d'.pos = d.pos + 1 ∧ 0 < letter.2 ∧ d'.pos + letter.2 ≤ d'.seen := by
  refine (proceeds_advance _ h).bind fun _ s₁ d₁ _ h₁ => ?_
  refine (proceeds_charAt? 0).bind fun r s₂ d₂ _ h₂ => ?_
  cases r with
  | none => exact proceeds_fail rfl
  | some r =>
      have hc := h₂.2 r.1 r.2 rfl
      exact .pure ⟨by omega, by omega, by omega⟩

theorem proceeds_escape (letter : Char × Nat) (h : d.pos + letter.2 ≤ d.seen) :
    (escape letter).Proceeds .all settings s d fun _ _ _ => True := by
  refine (proceeds_advance _ h).bind fun _ s₁ d₁ _ _ => ?_
  split
  · exact proceeds_unicodeEscape
  · split
    · exact .pure trivial
    · exact proceeds_fail rfl

/-! ## Bodies -/

/-- A body that was left in place was referred to, and nothing was moved since. -/
def Body.Within (d : Reach total) : Body → Prop
  | .held span => span ∈ d.marks
  | .decoded _ => True

/-- What is not yet decoded of a body that began at `first` is held where it was. -/
structure Partial.Follows (p : Partial) (first : Nat) (d : Reach total) : Prop where
  anchors : d.Anchors first
  first_le : first ≤ p.start
  start_le : p.start ≤ d.pos

theorem Partial.Follows.onward {p : Partial} {first : Nat} {s₁ : State} {d₁ : Reach total}
    (h : p.Follows first d) (ho : Onward .all s d s₁ d₁) : p.Follows first d₁ :=
  ⟨ho.anchors h.anchors, h.first_le, h.start_le.trans ho.pos_le⟩

theorem proceeds_bodyTurn (quote : UInt8) {first : Nat} {p : Partial} (h : p.Follows first d) :
    (bodyTurn quote first p).Proceeds .all settings s d
      (Turn.Leaves (fun p' _ d' => p'.Follows first d') d fun b _ d' => b.Within d') := by
  refine (proceeds_byte? 0).bind fun b s₁ d₁ ho₁ h₁ => ?_
  have hp := h.onward ho₁
  split
  · exact proceeds_fail rfl
  · have hb := h₁.2 _ rfl
    apply (proceeds_cursor _).bind
    rintro last s₂ d₂ ho₂ ⟨rfl, rfl, hpos, hheld, -⟩
    refine (proceeds_escapeLetter quote (by omega)).bind fun letter s₃ d₃ ho₃ hletter => ?_
    have hp₃ := (hp.onward ho₂).onward ho₃
    refine (proceeds_bytesOf _ ⟨hp₃.anchors.mono hp₃.first_le, hp.start_le, ?_⟩).bind ?_
    · dsimp only
      omega
    rintro raw s₄ d₄ - ⟨-, rfl, rfl⟩
    refine (proceeds_escape letter hletter.2.2).bind fun chars s₅ d₅ ho₅ _ => ?_
    have hp₅ := hp₃.onward ho₅
    have hle₅ := ho₅.pos_le
    apply (proceeds_cursor _).bind
    rintro start s₆ d₆ ho₆ ⟨rfl, rfl, hpos₆, -⟩
    exact .pure ⟨⟨(hp₅.onward ho₆).anchors, hp₅.first_le.trans hp₅.start_le, hpos₆.ge⟩, by omega⟩
  · have hb := h₁.2 _ rfl
    refine (proceeds_takeReturn (by omega)).bind fun paired s₂ d₂ ho₂ h₂ => ?_
    exact .pure ⟨hp.onward ho₂, by omega⟩
  · have hb := h₁.2 _ rfl
    refine (proceeds_takeFeed (by omega)).bind fun _ s₂ d₂ ho₂ h₂ => ?_
    exact .pure ⟨hp.onward ho₂, by omega⟩
  · have hb := h₁.2 _ rfl
    split
    · apply (proceeds_cursor _).bind
      rintro last s₂ d₂ ho₂ ⟨rfl, rfl, hpos, hheld, -⟩
      refine (proceeds_advance _ (by omega)).bind fun _ s₃ d₃ ho₃ h₃ => ?_
      have hp₃ := (hp.onward ho₂).onward ho₃
      have hseen := d₃.pos_le
      split
      · refine (proceeds_bytesOf _ ⟨hp₃.anchors.mono hp₃.first_le, hp.start_le, ?_⟩).bind ?_
        · dsimp only
          omega
        · exact fun raw s₄ d₄ _ _ => .pure trivial
      · refine (proceeds_hold _ ⟨hp₃.anchors, hp.first_le.trans hp.start_le, ?_⟩).bind ?_
        · omega
        rintro _ s₄ d₄ - ⟨rfl, rfl, hmem, -⟩
        exact .pure hmem
    · refine (proceeds_advance _ (by omega)).bind fun _ s₂ d₂ ho₂ h₂ => ?_
      exact .pure ⟨hp.onward ho₂, by omega⟩

theorem proceeds_body (quote : UInt8) :
    (body quote).Proceeds .all settings s d fun b _ d' => b.Within d' := by
  apply (proceeds_cursor _).bind
  rintro first s₁ d₁ - ⟨rfl, rfl, hpos, -, hanchor⟩
  exact .repeating (fun p _ d' => p.Follows d.pos d') (fun _ _ _ h => proceeds_bodyTurn quote h)
    ⟨hanchor, le_rfl, hpos.ge⟩

theorem proceeds_bodyText (retain : Retain) {b : Body} (h : b.Within d) :
    (bodyText b).Proceeds retain settings s d fun _ s' d' => s' = s ∧ d' = d := by
  cases b with
  | held span => exact proceeds_textOf retain h
  | decoded text => exact .pure ⟨rfl, rfl⟩

theorem proceeds_quoted (quote : UInt8) (h : d.pos < d.seen) :
    (quoted quote).Proceeds .unread settings s d fun b _ d' => d.pos < d'.pos ∧ b.Within d' := by
  refine (proceeds_advance _ h).bind fun _ s₁ d₁ _ h₁ => ?_
  refine proceeds_settle.bind fun _ s₂ d₂ _ h₂ => ?_
  refine ((proceeds_body quote).mono fun b s₃ d₃ h₃ hb => ?_).weaken
  have hle := h₃.pos_le
  exact ⟨by omega, hb⟩

/-! ## Published strings -/

variable {s₁ s₂ : State} {d₁ : Reach total}

theorem Body.Within.slot {b : Body} (h : b.Within d) (span : Span)
    (hspan : b.slot = .held span) : span ∈ d.marks := by
  cases b with
  | held span' =>
      cases hspan
      exact h
  | decoded text => cases hspan

theorem ensures_publishBytes {b : Body} (hs : s.slot = .empty) (ho : Onward .unread s d s₁ d₁)
    (hsame : ((s₁.completeValue settings).countElement).Same s₂) (hlt : d.pos < d₁.pos)
    (hb : b.Within d₁) :
    (publishBytes b).Ensures settings s₂ d₁ (fun _ => Valued settings s d) Failed := by
  have hempty : s₂.slot = .empty :=
    hsame.slot_eq.trans ((slot_countElement _).trans (ho.slot_empty hs))
  apply (proceeds_bodyText .all hb).next (tolerates_failed hempty d₁)
  rintro text s₃ d₃ - herr ⟨rfl, rfl⟩
  split
  · exact (ensures_update _).mpr (.finish ho hsame hlt .bytes nofun)
  · exact herr.fail rfl

theorem ensures_publishText {b : Body} (dates : DateHandling) (hs : s.slot = .empty)
    (ho : Onward .unread s d s₁ d₁)
    (hsame : ((s₁.completeValue settings).countElement).Same s₂) (hlt : d.pos < d₁.pos)
    (hb : b.Within d₁) :
    (publishText dates b).Ensures settings s₂ d₁ (fun _ => Valued settings s d)
      Failed := by
  have hempty : s₂.slot = .empty :=
    hsame.slot_eq.trans ((slot_countElement _).trans (ho.slot_empty hs))
  have htext : (update fun settings => publishScalar settings .string b.slot false).Ensures
      settings s₂ d₁ (fun _ => Valued settings s d) Failed :=
    (ensures_update _).mpr (.finish ho hsame hlt .string hb.slot)
  unfold publishText
  dsimp only
  split
  · exact htext
  · have hdate : (dateOf? dates <$> bodyText b).Ensures settings s₂ d₁
        (fun _ s' d' => s' = s₂ ∧ d' = d₁) fun e s' d' =>
          Onward .all s₂ d₁ s' d' ∧ e.path = s'.path ∧ e.kind.isDefect = false :=
      .map ((proceeds_bodyText .all hb).ensures.mono (fun _ _ _ h => h.2) fun _ _ _ h => h)
    refine hdate.bind ?_ ?_
    · rintro date? _ _ ⟨rfl, rfl⟩
      cases date? with
      | some date =>
          exact (ensures_update _).mpr
            (.finish ho hsame hlt .date fun span h => absurd h (Slot.owned_ne_held _ span))
      | none => exact htext
    · exact fun e s₃ d₃ h => tolerates_failed hempty d₁ e s₃ d₃ h.1.unread h.2.1 h.2.2

theorem ensures_stringValue (quote : UInt8) (request : Request) (hs : s.slot = .empty)
    (h : d.pos < d.seen) :
    (stringValue quote request).Ensures settings s d (fun _ => Valued settings s d)
      Failed := by
  refine (proceeds_quoted quote h).next (tolerates_failed hs d) ?_
  rintro b s₁ d₁ ho - ⟨hlt, hb⟩
  rw [finishValue, ensures_update_bind, ensures_modify_bind]
  have hsame : ((s₁.completeValue settings).countElement).Same
      { (s₁.completeValue settings).countElement with quote := some quote } := ⟨rfl, rfl, rfl, rfl⟩
  split
  · exact ensures_publishBytes hs ho hsame hlt hb
  · rw [ensures_read_bind]
    exact ensures_publishText _ hs ho hsame hlt hb

end JsonPull.Reading
