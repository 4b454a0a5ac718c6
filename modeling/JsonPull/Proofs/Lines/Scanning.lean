import JsonPull.Proofs.Lines.Count
import JsonPull.Proofs.Reading.Outcome
import JsonPull.Proofs.Text.Utf8
import JsonPull.Reader.Structure

/-! # Line breaks between and within tokens

What is consumed without a look at line breaks contains none: the bytes of words, numbers, names
and blanks other than these. Blanks, comments, strings and the names of constructors count the line
breaks in them. -/

namespace JsonPull

/-- The character at an offset of a stream: a byte of ASCII, or something beyond it. -/
inductive CharAt (stream : List UInt8) (pos : Nat) : Char → Nat → Prop where
  | ascii (b : UInt8) (h : stream[pos]? = some b) (hb : b < 0x80) :
      CharAt stream pos (Char.ofNat b.toNat) 1
  | beyond (c : Char) (length : Nat) (hc : 0x80 ≤ c.toNat)
      (h : ∀ i < length, ∃ b, stream[pos + i]? = some b ∧ 0x80 ≤ b.toNat) : CharAt stream pos c length

variable {settings : Settings} {stream : List UInt8} {s : State} {pos : Nat} {b : UInt8} {c : Char}
  {length : Nat}

theorem isBreak_of_ne (hreturn : b ≠ 0x0D) (hfeed : b ≠ 0x0A) : isBreak b = false := by
  simp [isBreak, hreturn, hfeed]

theorem isBreak_beyond (h : 0x80 ≤ b.toNat) : isBreak b = false := by
  apply isBreak_of_ne
  · rintro rfl
    exact absurd h (by decide)
  · rintro rfl
    exact absurd h (by decide)

theorem clear_beyond {count : Nat} (h : ∀ i < count, ∃ b, stream[pos + i]? = some b ∧ 0x80 ≤ b.toNat) :
    Clear stream pos count := by
  intro i hi
  obtain ⟨b, hb, hle⟩ := h i hi
  exact ⟨b, hb, isBreak_beyond hle⟩

namespace CharAt

/-- A character whose first byte ends no line has no line break in it. -/
theorem clear (h : CharAt stream pos c length)
    (hb : ∀ b, stream[pos]? = some b → isBreak b = false) : Clear stream pos length := by
  cases h with
  | ascii b h hascii => exact clear_one h (hb b h)
  | beyond c length hc h => exact clear_beyond h

theorem clear_of_ne (h : CharAt stream pos c length) (hreturn : c ≠ '\r') (hfeed : c ≠ '\n') :
    Clear stream pos length := by
  cases h with
  | ascii b h hascii =>
      refine clear_one h (isBreak_of_ne ?_ ?_)
      · rintro rfl
        exact hreturn rfl
      · rintro rfl
        exact hfeed rfl
  | beyond c length hc h => exact clear_beyond h

theorem byte_eq (h : CharAt stream pos c length) (hc : c.toNat < 0x80) :
    stream[pos]? = some (UInt8.ofNat c.toNat) := by
  cases h with
  | ascii b hb hascii =>
      have hlt : b.toNat < 0x80 := UInt8.lt_iff_toNat_lt.mp hascii
      have hvalid : b.toNat.isValidChar := .inl (by omega)
      rw [hb, Char.toNat_ofNat, if_pos hvalid, UInt8.ofNat_toNat]
  | beyond c length hbeyond => omega

/-- A byte beyond ASCII that is decoded by itself stands for U+FFFD. -/
theorem replacement {lead : UInt8} (hget : stream[pos]? = some lead) (hlead : 0x80 ≤ lead.toNat) :
    CharAt stream pos Text.replacement 1 := by
  refine .beyond _ _ (by decide) fun i hi => ?_
  obtain rfl : i = 0 := by omega
  exact ⟨lead, hget, hlead⟩

theorem decoded {bytes : List UInt8} (hdecode : Text.decodeSequence? bytes = some c)
    (hsize : bytes.length = length) (hlong : 1 < length)
    (hbytes : ∀ i < length, stream[pos + i]? = bytes[i]?) : CharAt stream pos c length := by
  subst hsize
  cases bytes with
  | nil => cases hdecode
  | cons b bytes =>
      have htail : bytes ≠ [] := by
        rintro rfl
        exact Nat.lt_irrefl 1 hlong
      obtain ⟨hc, hall⟩ := Text.beyond_of_decodeSequence? hdecode htail
      refine .beyond _ _ hc fun i hi => ?_
      rw [hbytes i hi, List.getElem?_eq_getElem hi]
      exact ⟨_, rfl, hall _ (List.getElem_mem _)⟩

end CharAt

namespace Reading

variable {α : Type} {retain : Retain}

/-! ## Looking ahead -/

theorem gives_bytes? (ahead count : Nat) :
    (bytes? ahead count retain).Gives settings stream s pos fun r s' pos' =>
      s' = s ∧ pos' = pos ∧ ∀ bytes, r = some bytes → bytes.length = count + 1 ∧
        ∀ i < count + 1, stream[pos + ahead + i]? = bytes[i]? := by
  unfold bytes?
  rw [gives_bind, gives_byte?]
  cases hlast : stream[pos + (ahead + count)]? with
  | none => exact (gives_pure _).mpr ⟨rfl, rfl, nofun⟩
  | some b =>
      have hlt := (List.getElem?_eq_some_iff.mp hlast).1
      dsimp only
      rw [gives_bind, gives_cursor, gives_bind, gives_bytesOf, gives_pure]
      refine ⟨rfl, rfl, ?_⟩
      rintro bytes ⟨⟩
      dsimp only
      rw [Nat.add_sub_cancel_left]
      constructor
      · rw [List.length_take, List.length_drop]
        omega
      · intro i hi
        rw [List.getElem?_take_of_lt hi, List.getElem?_drop]

theorem gives_charAt? (ahead : Nat) :
    (charAt? ahead retain).Gives settings stream s pos fun r s' pos' =>
      s' = s ∧ pos' = pos ∧ ∀ c n, r = some (c, n) → CharAt stream (pos + ahead) c n := by
  have hfound : ∀ {c : Char} {n : Nat}, CharAt stream (pos + ahead) c n →
      (pure (some (c, n)) : Reading (Option (Char × Nat))).Gives settings stream s pos
        fun r s' pos' => s' = s ∧ pos' = pos ∧
          ∀ c n, r = some (c, n) → CharAt stream (pos + ahead) c n := by
    intro c n hchar
    refine (gives_pure _).mpr ⟨rfl, rfl, ?_⟩
    rintro _ _ ⟨⟩
    exact hchar
  unfold charAt?
  rw [gives_bind, gives_byte?]
  cases hget : stream[pos + ahead]? with
  | none => exact (gives_pure _).mpr ⟨rfl, rfl, nofun⟩
  | some lead =>
      dsimp only
      split
      · rename_i hascii
        exact hfound (.ascii lead hget hascii)
      rename_i hbeyond
      have hsingle : CharAt stream (pos + ahead) Text.replacement 1 :=
        .replacement hget (UInt8.le_iff_toNat_le.mp (UInt8.not_lt.mp hbeyond))
      split
      · exact hfound hsingle
      rename_i hlong
      have hlength := sequenceLength_pos lead
      refine (gives_bytes? ahead _).bind ?_
      rintro r s' pos' ⟨rfl, rfl, hbytes⟩
      cases r with
      | none => exact hfound hsingle
      | some bytes =>
          obtain ⟨hsize, hbytes⟩ := hbytes bytes rfl
          dsimp only
          split
          · rename_i c hdecode
            exact hfound (.decoded hdecode (by omega) (by omega) fun i hi => hbytes i (by omega))
          · exact hfound hsingle

/-! ## Counting readings -/

/-- A reading that counts every line break it passes, if it succeeds. -/
def Counts (x : Reading α) (settings : Settings) (stream : List UInt8) (s : State) (pos : Nat) :
    Prop :=
  x.Gives settings stream s pos fun _ s' pos' => Counted stream s'.lines pos'

theorem counts_advance {count : Nat} (h : Counted stream s.lines pos)
    (hclear : Clear stream pos count) : (advance count).Counts settings stream s pos :=
  (gives_advance count).mpr (h.advance hclear)

theorem gives_startLine {post : Unit → State → Nat → Prop} :
    startLine.Gives settings stream s pos post ↔
      post () { s with lines := s.lines.next pos } pos := by
  unfold startLine
  rw [gives_bind, gives_cursor, gives_modify]

theorem counts_takeReturn (h : Counted stream s.lines pos) (hb : stream[pos]? = some 0x0D) :
    (takeReturn retain).Counts settings stream s pos := by
  unfold Counts takeReturn
  rw [gives_bind, gives_advance, gives_bind, gives_byte?]
  by_cases hnext : stream[pos + 1]? = some 0x0A
  · rw [Nat.add_zero, hnext]
    simp only [beq_self_eq_true, if_true]
    rw [gives_bind, gives_advance, gives_bind, gives_startLine, gives_pure]
    exact h.pairedReturn hb hnext
  · have hlone : (stream[pos + 1]? == some 0x0A) = false := beq_eq_false_iff_ne.mpr hnext
    rw [Nat.add_zero, hlone]
    simp only [Bool.false_eq_true, if_false]
    rw [gives_bind, gives_startLine, gives_pure]
    exact h.loneReturn hb hnext

theorem counts_takeFeed (h : Counted stream s.lines pos) (hb : stream[pos]? = some 0x0A) :
    takeFeed.Counts settings stream s pos := by
  unfold Counts takeFeed
  rw [gives_bind, gives_advance, gives_startLine]
  exact h.feed hb

/-- A blank other than a line break contains none. -/
theorem gives_blankLength? :
    (blankLength? retain).Gives settings stream s pos fun r s' pos' =>
      s' = s ∧ pos' = pos ∧ ∀ n, r = some n →
        (∀ b, stream[pos]? = some b → isBreak b = false) → Clear stream pos n := by
  unfold blankLength?
  rw [gives_bind, gives_byte?]
  cases hget : stream[pos + 0]? with
  | none => exact (gives_pure _).mpr ⟨rfl, rfl, nofun⟩
  | some b =>
      dsimp only
      split
      · refine (gives_pure _).mpr ⟨rfl, rfl, ?_⟩
        intro n hn hbreak
        split at hn
        · cases hn
          exact clear_one hget (hbreak b rfl)
        · cases hn
      · refine (gives_charAt? 0).bind ?_
        rintro r s' pos' ⟨rfl, rfl, hchar⟩
        cases r with
        | none => exact (gives_pure _).mpr ⟨rfl, rfl, nofun⟩
        | some r =>
            obtain ⟨c, length⟩ := r
            refine (gives_pure _).mpr ⟨rfl, rfl, ?_⟩
            intro n hn hbreak
            split at hn
            · cases hn
              exact (hchar c length rfl).clear fun b' hb' => hbreak b' (hget.symm.trans hb')
            · cases hn

/-- The byte behind the blanks is the one that is answered. -/
theorem gives_skipBlanks (h : Counted stream s.lines pos) :
    skipBlanks.Gives settings stream s pos fun b s' pos' =>
      Counted stream s'.lines pos' ∧ stream[pos']? = b := by
  refine gives_repeating (fun _ s' pos' => Counted stream s'.lines pos') ?_ h
  intro _ s pos h
  rw [gives_bind, gives_byte?]
  cases hget : stream[pos + 0]? with
  | none => exact (gives_pure _).mpr ⟨h, hget⟩
  | some b =>
      split
      · rename_i heq
        cases heq
      · rename_i heq
        cases heq
        exact (counts_takeReturn h hget).bind fun _ s' pos' h' => (gives_pure _).mpr h'
      · rename_i heq
        cases heq
        exact (counts_takeFeed h hget).bind fun _ s' pos' h' => (gives_pure _).mpr h'
      · rename_i hreturn hfeed heq
        obtain rfl := Option.some.inj heq
        have hbreak : isBreak b = false := isBreak_of_ne hreturn hfeed
        refine gives_blankLength?.bind ?_
        rintro r s' pos' ⟨rfl, rfl, hclear⟩
        cases r with
        | none => exact (gives_pure _).mpr ⟨h, hget⟩
        | some length =>
            refine (counts_advance h (hclear length rfl fun b' hb' => ?_)).bind ?_
            · obtain rfl := Option.some.inj (hget.symm.trans hb')
              exact hbreak
            · exact fun _ s'' pos'' h' => (gives_pure _).mpr h'

/-! ## Comments -/

theorem counts_lineCommentBody (h : Counted stream s.lines pos) :
    lineCommentBody.Counts settings stream s pos := by
  refine gives_repeating (fun _ s' pos' => Counted stream s'.lines pos') ?_ h
  intro _ s pos h
  have hstop : (do return Turn.stop (← cursor) : Reading (Turn Unit Nat)).Gives settings stream s pos
      (Turn.Keeps (fun _ s' pos' => Counted stream s'.lines pos')
        fun _ s' pos' => Counted stream s'.lines pos') := by
    rw [gives_bind, gives_cursor, gives_pure]
    exact h
  rw [gives_bind, gives_byte?]
  split
  · exact hstop
  · exact hstop
  · exact hstop
  · rename_i b hreturn hfeed hget
    refine (counts_advance h (clear_one hget (isBreak_of_ne hreturn hfeed))).bind ?_
    exact fun _ s' pos' h' => (gives_pure _).mpr h'

theorem counts_blockCommentBody (h : Counted stream s.lines pos) :
    blockCommentBody.Counts settings stream s pos := by
  refine gives_repeating (fun _ s' pos' => Counted stream s'.lines pos') ?_ h
  intro _ s pos h
  rw [gives_bind, gives_byte?]
  split
  · exact gives_fail _
  · rename_i hget
    rw [gives_bind, gives_advance, gives_bind, gives_byte?]
    have hstar := h.advance (clear_one hget rfl)
    split
    · rename_i hslash
      rw [gives_bind, gives_behind]
      refine (counts_advance hstar (clear_one (by simpa using hslash) rfl)).bind ?_
      exact fun _ s' pos' h' => (gives_pure _).mpr h'
    · exact (gives_pure _).mpr hstar
  · rename_i hget
    exact (counts_takeReturn h hget).bind fun _ s' pos' h' => (gives_pure _).mpr h'
  · rename_i hget
    exact (counts_takeFeed h hget).bind fun _ s' pos' h' => (gives_pure _).mpr h'
  · rename_i b hstar hreturn hfeed hget
    refine (counts_advance h (clear_one hget (isBreak_of_ne hreturn hfeed))).bind ?_
    exact fun _ s' pos' h' => (gives_pure _).mpr h'

theorem counts_comment (surface : Bool) (h : Counted stream s.lines pos)
    (hb : stream[pos]? = some 0x2F) : (comment surface).Counts settings stream s pos := by
  have hslash := h.advance (clear_one hb rfl)
  unfold Counts comment
  rw [gives_bind, gives_advance, gives_bind, gives_byte?]
  cases hget : stream[pos + 1 + 0]? with
  | none => exact gives_fail _
  | some mark =>
      dsimp only
      split
      · exact gives_unexpected _
      rename_i hmark
      have hclear : isBreak mark = false := by
        apply isBreak_of_ne
        · rintro rfl
          exact hmark rfl
        · rintro rfl
          exact hmark rfl
      rw [gives_bind, gives_advance, gives_bind, gives_cursor]
      have hopen := hslash.advance (clear_one hget hclear)
      have hsurface : ∀ first last s' pos', Counted stream s'.lines pos' →
          (if surface = true then do
              let span : Span := { first, last }
              let trimmed := trimSpan span (← bytesOf span)
              modify (State.publishComment (.held (← hold trimmed.first trimmed.last)))
            else pure () : Reading Unit).Counts settings stream s' pos' := by
        intro first last s' pos' h'
        cases surface with
        | false => exact (gives_pure _).mpr h'
        | true =>
            simp only [if_true, Counts]
            rw [gives_bind, gives_bytesOf, gives_bind, gives_hold, gives_modify]
            exact h'
      split
      · exact (counts_lineCommentBody hopen).bind fun last s' pos' h' => hsurface _ _ s' pos' h'
      · exact (counts_blockCommentBody hopen).bind fun last s' pos' h' => hsurface _ _ s' pos' h'

end Reading

end JsonPull
