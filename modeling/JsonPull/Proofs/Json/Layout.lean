import JsonPull.Proofs.Json.Text
import JsonPull.Proofs.Reading.Blank
import JsonPull.Reader.Word

/-! # Blanks and words of JSON

Four blanks may stand in JSON, and a word is found where it is followed by something that ends it. -/

namespace JsonPull

variable {settings : Settings} {stream blank rest : List UInt8} {s : State} {pos : Nat}

namespace Json

/-- What may follow a value: nothing, a blank, a comma or the end of a container. -/
def IsEnd (bytes : List UInt8) : Prop :=
  ∀ b ∈ bytes.head?, b ∈ [0x20, 0x09, 0x0A, 0x0D, 0x2C, 0x5D, 0x7D]

theorem isEnd_nil : IsEnd [] := by
  rintro b ⟨⟩

theorem isBlank_nil : IsBlank [] :=
  fun _ hb => absurd hb List.not_mem_nil

theorem IsBlank.append {blank' : List UInt8} (h : IsBlank blank) (h' : IsBlank blank') :
    IsBlank (blank ++ blank') :=
  fun b hb => (List.mem_append.mp hb).elim (h b) (h' b)

theorem IsBlank.isSpace (h : IsBlank blank) : IsSpace blank := by
  induction blank with
  | nil => exact .nil
  | cons b blank ih =>
      have hspace : IsSpace blank := ih fun b' hb' => h b' (List.mem_cons_of_mem _ hb')
      rcases h b List.mem_cons_self with rfl | rfl | rfl | rfl
      · exact .blank (c := ' ') rfl hspace
      · exact .blank (c := '\t') rfl hspace
      · exact .blank (c := '\n') rfl hspace
      · exact .blank (c := '\r') rfl hspace

theorem IsBlank.isEnd_of_ne_nil (h : IsBlank blank) (hne : blank ≠ []) (rest : List UInt8) :
    IsEnd (blank ++ rest) := by
  obtain ⟨b, blank, rfl⟩ := List.exists_cons_of_ne_nil hne
  rintro b ⟨⟩
  rcases h b (List.mem_cons_self ..) with rfl | rfl | rfl | rfl <;> decide

theorem IsBlank.isEnd_append (h : IsBlank blank) (hrest : IsEnd rest) : IsEnd (blank ++ rest) := by
  by_cases hne : blank = []
  · rwa [hne]
  · exact h.isEnd_of_ne_nil hne rest

end Json

/-! ## What ends a scalar -/

/-- What may follow a word: nothing, a blank, a mark of an array or an object, the end of a
constructor in one, or a comment. -/
inductive EndsWord (phase : Phase) : List UInt8 → Prop where
  | done : EndsWord phase []
  | mark {b : UInt8} {rest : List UInt8} (h : b ∈ [0x2C, 0x7D, 0x5D]) : EndsWord phase (b :: rest)
  | closing {rest : List UInt8} (h : phase.inConstructor = true) : EndsWord phase (0x29 :: rest)
  | comment {b : UInt8} {rest : List UInt8} (h : b = 0x2A ∨ b = 0x2F) :
      EndsWord phase (0x2F :: b :: rest)
  | blank {c : Char} {rest : List UInt8} (h : Text.isBlank c = true) :
      EndsWord phase (Text.encode c ++ rest)

/-- What may follow a number: nothing, a blank, or one of five marks. -/
inductive Terminates : List UInt8 → Prop where
  | done : Terminates []
  | mark {b : UInt8} {rest : List UInt8} (h : b ∈ [0x2C, 0x7D, 0x5D, 0x29, 0x2F]) :
      Terminates (b :: rest)
  | blank {c : Char} {rest : List UInt8} (h : Text.isBlank c = true) :
      Terminates (Text.encode c ++ rest)

namespace Json

theorem IsEnd.endsWord (h : IsEnd rest) (phase : Phase) : EndsWord phase rest := by
  cases rest with
  | nil => exact .done
  | cons b rest =>
      have hb := h b rfl
      simp only [List.mem_cons, List.not_mem_nil, or_false] at hb
      rcases hb with rfl | rfl | rfl | rfl | rfl | rfl | rfl
      · exact .blank (c := ' ') rfl
      · exact .blank (c := '\t') rfl
      · exact .blank (c := '\n') rfl
      · exact .blank (c := '\r') rfl
      · exact .mark (by decide)
      · exact .mark (by decide)
      · exact .mark (by decide)

end Json

namespace EndsWord

variable {phase phase' : Phase}

/-- Blanks may stand before what ends a word. -/
theorem blanks (h : EndsWord phase rest) (hblank : IsSpace blank) : EndsWord phase (blank ++ rest) := by
  cases hblank with
  | nil => exact h
  | blank hblank _ =>
      rw [List.append_assoc]
      exact .blank hblank

/-- What ends a word ends a number. -/
theorem terminates (h : EndsWord phase rest) : Terminates rest := by
  cases h with
  | done => exact .done
  | mark hmark =>
      simp only [List.mem_cons, List.not_mem_nil, or_false] at hmark
      rcases hmark with rfl | rfl | rfl <;> exact .mark (by decide)
  | closing | comment => exact .mark (by decide)
  | blank hblank => exact .blank hblank

/-- Only the end of a constructor depends on the phase. -/
theorem of_not_inConstructor (h : EndsWord phase rest) (hphase : phase.inConstructor = false) :
    EndsWord phase' rest := by
  cases h with
  | done => exact .done
  | mark hmark => exact .mark hmark
  | closing hinside =>
      rw [hphase] at hinside
      cases hinside
  | comment hmark => exact .comment hmark
  | blank hblank => exact .blank hblank

end EndsWord

/-- What may follow a number begins with a mark, a blank of ASCII, or a byte beyond. -/
theorem Terminates.head (h : Terminates rest) : ∀ b ∈ rest.head?,
    b ∈ [0x2C, 0x7D, 0x5D, 0x29, 0x2F] ∨ Text.isBlankByte b = true ∨ 0x80 ≤ b := by
  cases h with
  | done => nofun
  | mark hmark =>
      rintro b ⟨⟩
      exact .inl hmark
  | blank hblank =>
      rcases Text.encode_blank hblank with ⟨b, hb, -, hbyte⟩ | ⟨lead, tail, hb, hle⟩
      · rw [hb]
        rintro b ⟨⟩
        exact .inr (.inl hbyte)
      · rw [hb]
        rintro b ⟨⟩
        exact .inr (.inr hle)

namespace Reading

open JsonPull.Json

/-! ## Blanks -/

/-- Blanks are skipped, and what follows them is seen. -/
theorem succeeds_skipBlanks (hblank : IsBlank blank) (hrest : IsSolid rest)
    (h : Ahead stream pos (blank ++ rest)) {post : Option UInt8 → State → Nat → Prop}
    (hpost : ∀ s' pos', s.Same s' → Ahead stream pos' rest → post rest.head? s' pos') :
    skipBlanks.Succeeds settings stream s pos post :=
  succeeds_skipBlanks_space hblank.isSpace hrest h hpost

/-! ## Words -/

theorem succeeds_matchBytes {matched word : List UInt8}
    (h : Ahead stream pos (matched ++ (word ++ rest))) {post : Bool → State → Nat → Prop} :
    (matchBytes matched.length word).Succeeds settings stream s pos post ↔
      post true s (pos + (matched ++ word).length) := by
  induction word generalizing matched with
  | nil =>
      unfold matchBytes
      rw [succeeds_bind, succeeds_advance, succeeds_pure, List.append_nil]
  | cons b word ih =>
      have hbyte : stream[pos + matched.length]? = some b := by
        rw [h.getElem?, List.getElem?_append_right le_rfl, Nat.sub_self]
        rfl
      have hnext : Ahead stream pos ((matched ++ [b]) ++ (word ++ rest)) := by
        rw [List.append_assoc]
        exact h
      have hword := ih hnext
      rw [List.length_append, List.length_singleton, List.append_assoc] at hword
      unfold matchBytes
      rw [succeeds_bind, succeeds_byte?, hbyte, if_pos (beq_self_eq_true _)]
      exact hword

theorem succeeds_matchWord {literal : Literal} {word : List UInt8} (hword : literal.bytes = word)
    (hne : word ≠ []) (h : Ahead stream pos (word ++ rest)) {post : Bool → State → Nat → Prop} :
    (matchWord literal).Succeeds settings stream s pos post ↔ post true s (pos + word.length) := by
  have hlength := List.length_pos_iff.mpr hne
  have hlast : stream[pos + (word.length - 1)]? = some (word.getLast hne) := by
    rw [h.getElem?, List.getElem?_append_left (by omega), List.getLast_eq_getElem,
      List.getElem?_eq_getElem]
  unfold matchWord
  rw [hword]
  dsimp only
  rw [succeeds_bind, succeeds_byte?, hlast]
  have hnone : Ahead stream pos ([] ++ (word ++ rest)) := h
  exact succeeds_matchBytes hnone

theorem succeeds_atSeparator (hrest : EndsWord s.phase rest) (h : Ahead stream pos rest) :
    atSeparator.Succeeds settings stream s pos fun found s' pos' =>
      found = true ∧ s' = s ∧ pos' = pos := by
  unfold atSeparator
  rw [succeeds_bind, succeeds_byte?, h.head?]
  cases hrest with
  | done => exact (succeeds_pure _).mpr ⟨rfl, rfl, rfl⟩
  | mark hmark =>
      simp only [List.mem_cons, List.not_mem_nil, or_false] at hmark
      rcases hmark with rfl | rfl | rfl <;> exact (succeeds_pure _).mpr ⟨rfl, rfl, rfl⟩
  | closing hphase =>
      change (get >>= fun s => pure s.phase.inConstructor : Reading Bool).Succeeds _ _ _ _ _
      rw [succeeds_bind, succeeds_get, succeeds_pure]
      exact ⟨hphase, rfl, rfl⟩
  | @comment b rest hmark =>
      have hnext : stream[pos + 1]? = some b := h.getElem? 1
      change (byte? 1 .unread >>= fun next => pure (next == some 0x2A || next == some 0x2F) :
        Reading Bool).Succeeds _ _ _ _ _
      rw [succeeds_bind, succeeds_byte?, hnext, succeeds_pure]
      refine ⟨?_, rfl, rfl⟩
      rcases hmark with rfl | rfl <;> rfl
  | @blank c rest hblank =>
      have hlength : (do return (← blankLength? .unread).isSome : Reading Bool).Succeeds settings
          stream s pos fun found s' pos' => found = true ∧ s' = s ∧ pos' = pos := by
        rw [succeeds_bind]
        refine (succeeds_blankLength?_blank hblank h).mono ?_
        rintro _ _ _ ⟨rfl, rfl, rfl⟩
        exact (succeeds_pure _).mpr ⟨rfl, rfl, rfl⟩
      have hhead : ∀ b ∈ (Text.encode c ++ rest).head?,
          Text.isBlankByte b = true ∨ 0x80 ≤ b := by
        rcases Text.encode_blank hblank with ⟨b, hb, -, hbyte⟩ | ⟨lead, tail, hb, hle⟩
        · rw [hb]
          rintro b ⟨⟩
          exact .inl hbyte
        · rw [hb]
          rintro b ⟨⟩
          exact .inr hle
      cases hb : (Text.encode c ++ rest).head? with
      | none => exact (succeeds_pure _).mpr ⟨rfl, rfl, rfl⟩
      | some b =>
          have hclass := hhead b hb
          split
          case h_7 => exact hlength
          case h_1 heq => cases heq
          all_goals
            rename_i heq
            cases heq
            exact absurd hclass (by decide)

theorem succeeds_requireWord {literal : Literal} {word : List UInt8} (hword : literal.bytes = word)
    (hne : word ≠ []) (hrest : EndsWord s.phase rest) (h : Ahead stream pos (word ++ rest))
    {post : Unit → State → Nat → Prop} :
    (requireWord literal).Succeeds settings stream s pos post ↔ post () s (pos + word.length) := by
  have hseparator : atSeparator.Succeeds settings stream s (pos + word.length) _ :=
    succeeds_atSeparator hrest h.skip
  obtain ⟨_, _, _, ⟨rfl, rfl, rfl⟩, hexact⟩ := hseparator.exact
  unfold requireWord separateWord
  rw [succeeds_bind, succeeds_bind, succeeds_matchWord hword hne h, if_pos rfl, hexact]
  exact succeeds_pure ()

end Reading

end JsonPull
