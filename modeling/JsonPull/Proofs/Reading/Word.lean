import JsonPull.Proofs.Reading.Layout
import JsonPull.Proofs.Reading.Step
import JsonPull.Reader.Word

/-! # Literal words

Reading a word only moves the cursor. A word that is a value is published behind its end. -/

namespace JsonPull.Reading

open State

variable {total : Nat} {settings : Settings} {s : State} {d : Reach total}

theorem proceeds_consumeRest (n : Nat) :
    (consumeRest n).Proceeds .all settings s d fun _ _ _ => True := by
  induction n generalizing s d with
  | zero => exact .pure trivial
  | succ n ih =>
      refine (proceeds_byte? 0).bind fun b s₁ d₁ _ h₁ => ?_
      cases b with
      | none => exact .pure trivial
      | some b =>
          have hb := h₁.2 b rfl
          exact (proceeds_advance _ (by omega)).bind fun _ _ _ _ _ => ih

/-- A match consumes the whole rest of the word. -/
theorem proceeds_matchBytes (matched : Nat) (rest : List UInt8)
    (h : d.pos + matched + rest.length ≤ d.seen) :
    (matchBytes matched rest).Proceeds .all settings s d
      fun r _ d' => r = true → d'.pos = d.pos + matched + rest.length := by
  induction rest generalizing matched s d with
  | nil =>
      rw [List.length_nil] at h
      refine (proceeds_advance _ (by omega)).bind fun _ s₁ d₁ _ h₁ => .pure fun _ => ?_
      exact h₁.2.1
  | cons expected rest ih =>
      rw [List.length_cons] at h
      refine (proceeds_byte? matched).bind fun b s₁ d₁ h₁ hb => ?_
      have hseen := h₁.seen_le
      split
      · refine (ih (matched + 1) (by omega)).mono fun r s₂ d₂ _ hr htrue => ?_
        have hpos := hr htrue
        rw [List.length_cons]
        omega
      · exact (proceeds_advance _ (by omega)).bind fun _ _ _ _ _ => .pure nofun

theorem length_bytes_pos (literal : Literal) : 0 < literal.bytes.length := by
  cases literal <;> decide

theorem proceeds_matchWord (literal : Literal) :
    (matchWord literal).Proceeds .all settings s d fun r _ d' => r = true → d.pos < d'.pos := by
  refine (proceeds_byte? _).bind fun b s₁ d₁ _ h₁ => ?_
  cases b with
  | none => exact (proceeds_consumeRest _).bind fun _ _ _ _ _ => proceeds_fail rfl
  | some b =>
      have hlast := h₁.2 b rfl
      have hlength := length_bytes_pos literal
      refine (proceeds_matchBytes 0 literal.bytes (by omega)).mono fun r s₂ d₂ _ hr htrue => ?_
      have hpos := hr htrue
      omega

theorem proceeds_atSeparator :
    atSeparator.Proceeds .unread settings s d fun _ _ _ => True := by
  refine (proceeds_byte? 0).bind fun b s₁ d₁ _ h₁ => ?_
  split
  · exact .pure trivial
  · exact .pure trivial
  · exact .pure trivial
  · exact .pure trivial
  · exact (proceeds_byte? 1).bind fun _ _ _ _ _ => .pure trivial
  · exact proceeds_get_bind (.pure trivial)
  · exact proceeds_blankLength?.bind fun _ _ _ _ _ => .pure trivial

theorem proceeds_separateWord (literal : Literal) :
    (separateWord literal).Proceeds .unread settings s d
      fun r _ d' => r = true → d.pos < d'.pos := by
  refine (proceeds_matchWord literal).weaken.bind fun found s₁ d₁ _ h₁ => ?_
  cases found with
  | false => exact .pure nofun
  | true =>
      refine proceeds_atSeparator.mono fun _ s₂ d₂ h₂ _ _ => ?_
      exact (h₁ rfl).trans_le h₂.pos_le

theorem proceeds_requireWord (literal : Literal) :
    (requireWord literal).Proceeds .unread settings s d fun _ _ d' => d.pos < d'.pos := by
  refine (proceeds_separateWord literal).bind fun found s₁ d₁ _ h₁ => ?_
  cases found with
  | false => exact proceeds_fail rfl
  | true => exact .pure (h₁ rfl)

/-! ## Words that are values -/

theorem ensures_booleanValue (b : Bool) (hs : s.slot = .empty) :
    (booleanValue b).Ensures settings s d (fun _ => Valued settings s d) Failed := by
  refine (proceeds_requireWord _).next (tolerates_failed hs d) fun _ s₁ d₁ ho _ hlt => ?_
  exact (ensures_update _).mpr (ho.valued hlt .boolean nofun)

theorem ensures_nullValue (hs : s.slot = .empty) :
    nullValue.Ensures settings s d (fun _ => Valued settings s d) Failed := by
  refine (proceeds_requireWord _).next (tolerates_failed hs d) fun _ s₁ d₁ ho _ hlt => ?_
  exact (ensures_update _).mpr (ho.valued hlt .null nofun)

theorem ensures_undefinedValue (hs : s.slot = .empty) :
    undefinedValue.Ensures settings s d (fun _ => Valued settings s d) Failed := by
  refine (proceeds_requireWord _).next (tolerates_failed hs d) fun _ s₁ d₁ ho _ hlt => ?_
  exact (ensures_update _).mpr (ho.valued hlt .undefined nofun)

end JsonPull.Reading
