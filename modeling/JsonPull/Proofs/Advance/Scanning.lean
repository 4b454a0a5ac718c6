import JsonPull.Proofs.Reading.Twin
import JsonPull.Reader.Structure

/-! # Scanning does not look at the token

How far blanks, comments, words, numbers and strings reach is decided by the bytes. The current
token, its value and the last quote play no part in it. -/

namespace JsonPull.Reading

open State

variable {α β : Type} {retain : Retain}

/-! ## Looking ahead -/

theorem blind_cursor : cursor.Blind := blind_ask .cursor

theorem blind_advance (count : Nat) : (advance count).Blind := blind_ask (.advance count)

theorem blind_settle : settle.Blind := blind_ask .settle

theorem blind_byte? (ahead : Nat) : (byte? ahead retain).Blind := by
  refine (blind_ask _).bind fun answer => ?_
  split
  · exact blind_pure _
  · exact blind_fail _
  · exact blind_fail _

theorem blind_hold (first last : Nat) : (hold first last).Blind :=
  (blind_ask _).bind fun _ => blind_pure _

theorem blind_stillHeld (bytes? : Option (List UInt8)) : (stillHeld bytes?).Blind := by
  cases bytes? with
  | none => exact blind_fail _
  | some bytes => exact blind_pure _

theorem blind_bytesOf (span : Span) : (bytesOf span).Blind :=
  (blind_ask _).bind fun _ => blind_stillHeld _

theorem blind_textOf (span : Span) : (textOf span).Blind :=
  (blind_ask _).bind fun _ => (blind_stillHeld _).bind fun _ => blind_pure _

theorem blind_bytes? (ahead count : Nat) : (bytes? ahead count retain).Blind := by
  refine (blind_byte? _).bind fun b => ?_
  split
  · exact blind_cursor.bind fun _ => (blind_bytesOf _).bind fun _ => blind_pure _
  · exact blind_pure _

theorem blind_charAt? (ahead : Nat) : (charAt? ahead retain).Blind := by
  refine (blind_byte? ahead).bind fun b => ?_
  split
  · exact blind_pure _
  · dsimp only
    split
    · exact blind_pure _
    split
    · exact blind_pure _
    refine (blind_bytes? _ _).bind fun bytes => ?_
    split
    · exact blind_pure _
    · split <;> exact blind_pure _

/-! ## Blanks and comments -/

theorem blind_startLine : startLine.Blind := by
  refine blind_cursor.bind fun offset => blind_modify fun s s' h => ?_
  exact ⟨congrArg (·.next offset) h.lines_eq, h.phase_eq, h.frames_eq⟩

theorem blind_takeReturn : (takeReturn retain).Blind := by
  refine (blind_advance 1).bind fun _ => (blind_byte? 0).bind fun b => ?_
  dsimp only
  split
  · exact (blind_advance 1).bind fun _ => blind_startLine.bind fun _ => blind_pure _
  · exact blind_startLine.bind fun _ => blind_pure _

theorem blind_takeFeed : takeFeed.Blind :=
  (blind_advance 1).bind fun _ => blind_startLine

theorem blind_blankLength? : (blankLength? retain).Blind := by
  refine (blind_byte? 0).bind fun b => ?_
  split
  · exact blind_pure _
  · split
    · exact blind_pure _
    · refine (blind_charAt? 0).bind fun r => ?_
      split <;> exact blind_pure _

theorem blind_skipBlanks : skipBlanks.Blind := by
  refine .repeating (fun _ => (blind_byte? 0).bind fun b => ?_) ()
  split
  · exact blind_pure _
  · exact blind_takeReturn.bind fun _ => blind_pure _
  · exact blind_takeFeed.bind fun _ => blind_pure _
  · refine blind_blankLength?.bind fun r => ?_
    split
    · exact (blind_advance _).bind fun _ => blind_pure _
    · exact blind_pure _

theorem blind_lineCommentBody : lineCommentBody.Blind := by
  refine .repeating (fun _ => (blind_byte? 0).bind fun b => ?_) ()
  split
  · exact blind_cursor.bind fun _ => blind_pure _
  · exact blind_cursor.bind fun _ => blind_pure _
  · exact blind_cursor.bind fun _ => blind_pure _
  · exact (blind_advance 1).bind fun _ => blind_pure _

theorem blind_blockCommentBody : blockCommentBody.Blind := by
  refine .repeating (fun _ => (blind_byte? 0).bind fun b => ?_) ()
  split
  · exact blind_fail _
  · refine (blind_advance 1).bind fun _ => (blind_byte? 0).bind fun b => ?_
    split
    · exact (blind_ask _).bind fun last => (blind_advance 1).bind fun _ => blind_pure _
    · exact blind_pure _
  · exact blind_takeReturn.bind fun _ => blind_pure _
  · exact blind_takeFeed.bind fun _ => blind_pure _
  · exact (blind_advance 1).bind fun _ => blind_pure _

/-! ## Words and numbers -/

theorem blind_matchBytes (matched : Nat) (rest : List UInt8) : (matchBytes matched rest).Blind := by
  induction rest generalizing matched with
  | nil => exact (blind_advance matched).bind fun _ => blind_pure _
  | cons expected rest ih =>
      refine (blind_byte? matched).bind fun b => ?_
      split
      · exact ih (matched + 1)
      · exact (blind_advance matched).bind fun _ => blind_pure _

theorem blind_consumeRest (n : Nat) : (consumeRest n).Blind := by
  induction n with
  | zero => exact blind_pure ()
  | succ n ih =>
      refine (blind_byte? 0).bind fun b => ?_
      split
      · exact (blind_advance 1).bind fun _ => ih
      · exact blind_pure ()

theorem blind_matchWord (literal : Literal) : (matchWord literal).Blind := by
  refine (blind_byte? _).bind fun b => ?_
  split
  · exact (blind_consumeRest _).bind fun _ => blind_fail _
  · exact blind_matchBytes _ _

theorem blind_atSeparator : atSeparator.Blind := by
  refine (blind_byte? 0).bind fun b => ?_
  split
  · exact blind_pure _
  · exact blind_pure _
  · exact blind_pure _
  · exact blind_pure _
  · exact (blind_byte? 1).bind fun _ => blind_pure _
  · refine blind_get_bind (fun _ => blind_pure _) fun s s' h => ?_
    rw [h.phase_eq]
  · exact blind_blankLength?.bind fun _ => blind_pure _

theorem blind_separateWord (literal : Literal) : (separateWord literal).Blind := by
  refine (blind_matchWord literal).bind fun found => ?_
  split
  · exact blind_atSeparator
  · exact blind_pure _

theorem blind_requireWord (literal : Literal) : (requireWord literal).Blind := by
  refine (blind_separateWord literal).bind fun found => ?_
  split
  · exact blind_fail _
  · exact blind_pure _

theorem blind_publishScalar (kind : Scalar) (slot : Slot) (counted : Bool) :
    (update fun settings => State.publishScalar settings kind slot counted).Blind :=
  blind_update (fun _ _ hkin => by rw [publishScalar_kin hkin])
    fun _ _ _ h => h.publishScalar kind kind slot slot counted

theorem blind_failNumber (fault : NumberFault) : (failNumber fault : Reading α).Blind :=
  (blind_publishScalar _ _ _).bind fun _ => blind_fail _

theorem blind_lexemeBytes : lexemeBytes.Blind := by
  refine .repeating (fun _ => (blind_byte? 0).bind fun b => ?_) ()
  split
  · exact blind_pure _
  · split
    · exact (blind_advance 1).bind fun _ => blind_pure _
    · exact blind_pure _

theorem blind_foundAtCursor : foundAtCursor.Blind := by
  refine (blind_charAt? 0).bind fun r => ?_
  split <;> exact blind_pure _

theorem blind_unexpected (site : CharSite) : (unexpected site : Reading α).Blind :=
  blind_foundAtCursor.bind fun _ => blind_fail _

theorem blind_lexeme : lexeme.Blind := by
  refine blind_lexemeBytes.bind fun b => ?_
  split
  · exact blind_pure _
  · split
    · exact blind_pure _
    · refine blind_blankLength?.bind fun r => ?_
      split
      · exact blind_pure _
      · exact blind_foundAtCursor.bind fun _ => blind_failNumber _

/-! ## Strings -/

theorem blind_escapeUnit : escapeUnit.Blind := by
  refine (blind_bytes? 0 3).bind fun digits => ?_
  split
  · exact blind_fail _
  · split
    · exact (blind_advance 4).bind fun _ => blind_pure _
    · exact blind_fail _

theorem blind_surrogates (high : Nat) : (surrogates high).Blind := by
  refine .repeating (fun _ => (blind_byte? 1).bind fun second => ?_) _
  refine (blind_byte? 0).bind fun first => ?_
  split
  · refine (blind_advance 2).bind fun _ => blind_escapeUnit.bind fun unit => ?_
    split
    · exact blind_pure _
    · split <;> exact blind_pure _
  · exact blind_pure _

theorem blind_unicodeEscape : unicodeEscape.Blind := by
  refine blind_escapeUnit.bind fun unit => ?_
  split
  · exact blind_surrogates _
  · exact blind_pure _

theorem blind_escapeLetter (quote : UInt8) : (escapeLetter quote).Blind := by
  refine (blind_advance 1).bind fun _ => (blind_charAt? 0).bind fun r => ?_
  split
  · exact blind_fail _
  · exact blind_pure _

theorem blind_escape (letter : Char × Nat) : (escape letter).Blind := by
  refine (blind_advance _).bind fun _ => ?_
  split
  · exact blind_unicodeEscape
  · split
    · exact blind_pure _
    · exact blind_fail _

theorem blind_body (quote : UInt8) : (body quote).Blind := by
  refine blind_cursor.bind fun first => .repeating (fun p => (blind_byte? 0).bind fun b => ?_) _
  split
  · exact blind_fail _
  · refine blind_cursor.bind fun _ => (blind_escapeLetter quote).bind fun letter => ?_
    refine (blind_bytesOf _).bind fun _ => ?_
    exact (blind_escape letter).bind fun _ => blind_cursor.bind fun _ => blind_pure _
  · exact blind_takeReturn.bind fun _ => blind_pure _
  · exact blind_takeFeed.bind fun _ => blind_pure _
  · split
    · refine blind_cursor.bind fun _ => (blind_advance 1).bind fun _ => ?_
      split
      · exact (blind_bytesOf _).bind fun _ => blind_pure _
      · exact (blind_hold _ _).bind fun _ => blind_pure _
    · exact (blind_advance 1).bind fun _ => blind_pure _

theorem blind_quoted (quote : UInt8) : (quoted quote).Blind :=
  (blind_advance 1).bind fun _ => blind_settle.bind fun _ => blind_body quote

theorem blind_bodyText (b : Body) : (bodyText b).Blind := by
  cases b with
  | held span => exact blind_textOf span
  | decoded text => exact blind_pure text

/-! ## Names -/

theorem blind_bareName : bareName.Blind := by
  refine blind_cursor.bind fun first => .repeating (fun _ => (blind_charAt? 0).bind fun r => ?_) ()
  split
  · exact blind_fail _
  · split
    · exact (blind_advance _).bind fun _ => blind_pure _
    · split
      · exact blind_cursor.bind fun _ => (blind_hold _ _).bind fun _ => blind_pure _
      · exact blind_fail _

theorem blind_nameText (quote : Option UInt8) : (nameText quote).Blind := by
  cases quote with
  | some mark => exact (blind_quoted mark).bind fun b => blind_bodyText b
  | none =>
      refine (blind_charAt? 0).bind fun r => ?_
      split
      · split
        · exact blind_settle.bind fun _ => blind_bareName.bind fun span => blind_textOf span
        · exact blind_unexpected _
      · exact blind_unexpected _

theorem blind_constructorName : constructorName.Blind := by
  refine .repeating (fun _ => (blind_charAt? 0).bind fun r => ?_) ()
  split
  · exact blind_fail _
  · split
    · exact (blind_advance _).bind fun _ => blind_pure _
    refine blind_cursor.bind fun last => ?_
    split
    · exact blind_pure _
    split
    · exact blind_takeReturn.bind fun _ => blind_pure _
    split
    · exact blind_takeFeed.bind fun _ => blind_pure _
    split
    · exact (blind_advance _).bind fun _ => blind_pure _
    · exact blind_fail _

end JsonPull.Reading
