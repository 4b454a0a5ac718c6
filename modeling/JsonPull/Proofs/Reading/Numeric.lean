import JsonPull.Proofs.Reading.Step
import JsonPull.Proofs.Reading.Word
import JsonPull.Reader.Numeric

/-! # Numbers

A number is read from at least one byte, since the empty spelling is none. -/

namespace JsonPull

open State

theorem Lexeme.plain_nil (settings : Settings) (v : Value) : plain settings [] ≠ .ok v := by
  have hint : Number.decimalInteger? [] = none := rfl
  have hdouble : Number.Double.ofBytes? [] = none := rfl
  have hdecimal : Number.Decimal.ofBytes? [] = none := rfl
  simp only [plain, Number.isRadix, hint, float, Bool.false_eq_true, if_false]
  cases settings.floats <;> simp [hdouble, hdecimal]

/-- The empty spelling is no number in any form. -/
theorem Lexeme.convert_nil (settings : Settings) (request : Request) (v : Option Value) :
    convert settings request [] ≠ .ok v := by
  have hint : int32 [] = .error (.notInteger (Text.ofBytes [])) := rfl
  have hdouble : double? [] = none := rfl
  have hdecimal : decimal? [] = none := rfl
  have hbytes : Number.Double.ofBytes? [] = none := rfl
  have hplain := plain_nil settings
  have hmap : (plain settings []).map some ≠ .ok v := by
    intro h
    cases hp : plain settings [] with
    | error e => simp [hp, Except.map] at h
    | ok a => exact hplain a hp
  cases request <;>
    first
      | exact hmap
      | simp [convert, hint, hdouble, hdecimal, hbytes, Number.isRadix, Except.map]

namespace Reading

variable {total : Nat} {settings : Settings} {s : State} {d : Reach total}

theorem proceeds_lexemeBytes :
    lexemeBytes.Proceeds .all settings s d fun _ _ _ => True := by
  refine .repeating (fun _ _ _ => True) ?_ trivial
  intro _ s d _
  refine (proceeds_byte? 0).bind fun b s₁ d₁ _ h₁ => ?_
  cases b with
  | none => exact .pure trivial
  | some b =>
      have hb := h₁.2 b rfl
      dsimp only
      split
      · refine (proceeds_advance _ (by omega)).bind fun _ s₂ d₂ _ h₂ => ?_
        exact .pure ⟨trivial, by omega⟩
      · exact .pure trivial

theorem ensures_failNumber {α : Type} (fault : NumberFault)
    {ok : α → State → Reach total → Prop} :
    (failNumber fault).Ensures settings s d ok Failed := by
  unfold failNumber
  rw [ensures_update_bind]
  exact (held_of_empty rfl d).fail rfl

theorem ensures_lexeme (hs : s.slot = .empty) :
    lexeme.Ensures settings s d (fun _ s' d' => Onward .all s d s' d') Failed := by
  refine proceeds_lexemeBytes.next (tolerates_failed hs d) fun b s₁ d₁ ho₁ herr _ => ?_
  cases b with
  | none => exact (ensures_pure _).mpr ho₁
  | some b =>
      dsimp only
      split
      · exact (ensures_pure _).mpr ho₁
      refine proceeds_blankLength?.next herr fun r s₂ d₂ ho₂ herr _ => ?_
      split
      · exact (ensures_pure _).mpr (ho₁.trans ho₂)
      · exact proceeds_foundAtCursor.next herr fun _ _ _ _ _ _ => ensures_failNumber _

/-- Without bytes there would be no number, so the cursor has moved on. -/
theorem ensures_numberValue (request : Request) (hs : s.slot = .empty) :
    (numberValue request).Ensures settings s d (fun _ => Valued settings s d) Failed := by
  refine proceeds_settle.next (tolerates_failed hs d) fun _ s₁ d₁ ho₁ herr _ => ?_
  rw [ensures_cursor_bind]
  refine (ensures_lexeme (ho₁.slot_empty hs)).bind ?_ fun _ _ _ h => h
  intro _ s₂ d₂ ho₂
  rw [finishValue, ensures_update_bind, ensures_cursor_bind]
  have ho := (ho₁.trans (.look .unread s₁ d₁)).trans ho₂.unread
  have hanchor := (Onward.look .all s₂ d₂).anchors (ho₂.anchors d₁.anchors_look)
  have hle : d₁.pos ≤ d₂.pos := ho₂.pos_le
  have hpos := ho₁.pos_le
  have hempty : ((s₂.completeValue settings).countElement).slot = .empty :=
    (slot_countElement _).trans (ho.slot_empty hs)
  apply (proceeds_hold .all ⟨hanchor, hle, le_rfl⟩).next (tolerates_failed hempty d₂.look)
  rintro _ _ _ ho₃ herr ⟨rfl, rfl, hmem, -⟩
  apply (proceeds_bytesOf .all ⟨ho₃.anchors hanchor, hle, d₂.pos_le.trans ho₃.seen_le⟩).next herr
  rintro spelling _ d₃ - - ⟨hlen, rfl, rfl⟩
  rw [ensures_read_bind]
  cases hconvert : Lexeme.convert settings request spelling with
  | error fault => exact ensures_failNumber fault
  | ok v =>
      have hlt : d.pos < d₃.pos := by
        by_contra hn
        have hmoved : d₂.pos ≤ d.pos := ho₃.pos_le.trans (Nat.le_of_not_lt hn)
        have hnil : spelling = [] := List.length_eq_zero_iff.mp (by dsimp only at hlen; omega)
        exact Lexeme.convert_nil settings request v (hnil ▸ hconvert)
      have hlook := ho.trans (.look .unread s₂ d₂)
      have hmarked : Onward .unread s d s₂ d₃ :=
        ⟨hlook.state_eq, hlook.pos_le.trans ho₃.pos_le, hlook.seen_le.trans ho₃.seen_le, nofun, nofun⟩
      cases v with
      | none =>
          refine (ensures_update _).mpr (.finish hmarked (.refl _) hlt .string ?_)
          rintro span ⟨⟩
          exact hmem
      | some v =>
          exact (ensures_update _).mpr
            (.finish hmarked (.refl _) hlt _ fun span h => absurd h (Slot.owned_ne_held _ span))

theorem ensures_specialValue (literal : Literal) (request : Request) (hs : s.slot = .empty) :
    (specialValue literal request).Ensures settings s d (fun _ => Valued settings s d)
      Failed := by
  refine (proceeds_requireWord literal).next (tolerates_failed hs d) fun _ s₁ d₁ ho herr hlt => ?_
  rw [ensures_read_bind]
  dsimp only
  split
  · exact (ensures_update _).mpr (ho.valued hlt .float nofun)
  · split
    · exact (ensures_update _).mpr (ho.valued hlt .string nofun)
    · exact herr.fail rfl

theorem ensures_negativeValue (request : Request) {number : Reading Unit} (hs : s.slot = .empty)
    (hnumber : ∀ s' d', Onward .all s d s' d' →
      number.Ensures settings s' d' (fun _ => Valued settings s' d') Failed) :
    (negativeValue request number).Ensures settings s d (fun _ => Valued settings s d)
      Failed := by
  refine (proceeds_byte? 1).next (tolerates_failed hs d) fun b s₁ d₁ ho _ _ => ?_
  refine Ensures.mono ?_ (fun _ _ _ h => State.Valued.of_onward ho h) fun _ _ _ h => h
  split
  · exact ensures_specialValue .negativeInfinity request (ho.slot_empty hs)
  · exact hnumber s₁ d₁ ho

end Reading

end JsonPull
