import JsonPull.Proofs.Shift.Parallel

/-! # Scanning at shifted places

How far blanks, comments, words, numbers, strings and names reach is decided by the bytes from the
cursor on. What is referred to are the same bytes at shifted offsets. -/

namespace JsonPull.Reading

variable {α β : Type} {f : Fork} {settings : Settings} {retain : Retain} {first first' last last' : Nat}

/-! ## Offsets and parts of the stream -/

theorem parallel_cursor : cursor.Parallel cursor f settings f.At :=
  .ask fun _ _ hpos => ⟨hpos, hpos⟩

theorem parallel_past (count : Nat) : (past count).Parallel (past count) f settings f.At :=
  .ask fun _ _ hpos => ⟨hpos.add count, hpos⟩

theorem parallel_behind : (behind 1).Parallel (behind 1) f settings f.Near :=
  .ask fun _ _ hpos => ⟨hpos.sub_one, hpos⟩

theorem movable_advance (count : Nat) : (advance count).Movable f settings :=
  .ask fun _ _ hpos => ⟨rfl, hpos.add count⟩

theorem movable_settle : settle.Movable f settings :=
  .ask fun _ _ hpos => ⟨rfl, hpos⟩

theorem movable_byte? (ahead : Nat) : (byte? ahead retain).Movable f settings := by
  have hask : (ask (.byte ahead retain)).Movable f settings :=
    .ask fun _ _ hpos => ⟨congrArg Except.ok (hpos.add ahead).getElem?.symm, hpos⟩
  refine hask.next fun answer => ?_
  split
  · exact movable_pure _
  · exact movable_fail _
  · exact movable_fail _

theorem parallel_hold (hfirst : f.At first first') (hlast : f.Near last last') :
    (hold first last).Parallel (hold first' last') f settings f.Spans := by
  have hask : (ask (.hold first last)).Parallel (ask (.hold first' last')) f settings Eq :=
    .ask fun _ _ hpos => ⟨rfl, hpos⟩
  exact hask.bind fun _ _ _ => .pure ⟨hfirst, hlast⟩

theorem movable_stillHeld (bytes? : Option (List UInt8)) : (stillHeld bytes?).Movable f settings := by
  cases bytes? with
  | none => exact movable_fail _
  | some bytes => exact movable_pure bytes

theorem parallel_bytesOf {span span' : Span} (h : f.Spans span span') :
    (bytesOf span).Parallel (bytesOf span') f settings Eq := by
  have hask : (ask (.slice span.first span.last)).Parallel (ask (.slice span'.first span'.last)) f
      settings Eq :=
    .ask fun _ _ hpos => ⟨congrArg some (h.first.slice h.last).symm, hpos⟩
  refine hask.bind ?_
  rintro bytes? _ rfl
  exact movable_stillHeld bytes?

theorem parallel_textOf {span span' : Span} (h : f.Spans span span') :
    (textOf span).Parallel (textOf span') f settings Eq := by
  have hask : (ask (.resolve span.first span.last)).Parallel
      (ask (.resolve span'.first span'.last)) f settings Eq :=
    .ask fun _ _ hpos => ⟨congrArg some (h.first.slice h.last).symm, hpos⟩
  refine hask.bind ?_
  rintro bytes? _ rfl
  exact (movable_stillHeld bytes?).next fun bytes => movable_pure _

theorem movable_bytes? (ahead count : Nat) : (bytes? ahead count retain).Movable f settings := by
  refine (movable_byte? _).next fun b => ?_
  split
  · refine parallel_cursor.bind fun pos pos' hpos => ?_
    have hspan : f.Spans ⟨pos + ahead, pos + ahead + (count + 1)⟩
        ⟨pos' + ahead, pos' + ahead + (count + 1)⟩ :=
      ⟨hpos.add ahead, ((hpos.add ahead).add (count + 1)).near⟩
    refine (parallel_bytesOf hspan).bind ?_
    rintro bytes _ rfl
    exact movable_pure _
  · exact movable_pure _

theorem movable_charAt? (ahead : Nat) : (charAt? ahead retain).Movable f settings := by
  refine (movable_byte? ahead).next fun b => ?_
  split
  · exact movable_pure _
  · dsimp only
    split
    · exact movable_pure _
    split
    · exact movable_pure _
    refine (movable_bytes? _ _).next fun bytes => ?_
    split
    · exact movable_pure _
    · split <;> exact movable_pure _

theorem movable_foundAtCursor : foundAtCursor.Movable f settings := by
  refine (movable_charAt? 0).next fun r => ?_
  split <;> exact movable_pure _

theorem movable_unexpected (site : CharSite) : (unexpected site : Reading α).Movable f settings :=
  movable_foundAtCursor.next fun _ => movable_fail _

theorem movable_unexpectedConsumed (site : CharSite) :
    (unexpectedConsumed site : Reading α).Movable f settings :=
  movable_foundAtCursor.next fun _ => (movable_advance _).next fun _ => movable_fail _

/-! ## Blanks and comments -/

theorem movable_startLine : startLine.Movable f settings := by
  refine parallel_cursor.bind fun pos pos' _ => .modify fun s s' h => ?_
  refine { h with lines_eq := ?_ }
  have hlines := h.lines_eq
  simp only [Lines.next]
  omega

theorem movable_takeReturn : (takeReturn retain).Movable f settings := by
  refine (movable_advance 1).next fun _ => (movable_byte? 0).next fun b => ?_
  dsimp only
  split
  · exact (movable_advance 1).next fun _ => movable_startLine.next fun _ => movable_pure _
  · exact movable_startLine.next fun _ => movable_pure _

theorem movable_takeFeed : takeFeed.Movable f settings :=
  (movable_advance 1).next fun _ => movable_startLine

theorem movable_blankLength? : (blankLength? retain).Movable f settings := by
  refine (movable_byte? 0).next fun b => ?_
  split
  · exact movable_pure _
  · split
    · exact movable_pure _
    · refine (movable_charAt? 0).next fun r => ?_
      split <;> exact movable_pure _

theorem movable_skipBlanks : skipBlanks.Movable f settings := by
  refine .repeating (fun _ => (movable_byte? 0).next fun b => ?_) ()
  split
  · exact movable_pure _
  · exact movable_takeReturn.next fun _ => movable_pure _
  · exact movable_takeFeed.next fun _ => movable_pure _
  · refine movable_blankLength?.next fun r => ?_
    split
    · exact (movable_advance _).next fun _ => movable_pure _
    · exact movable_pure _

theorem parallel_lineCommentBody : lineCommentBody.Parallel lineCommentBody f settings f.Near := by
  have hstop : ((do return .stop (← cursor)) : Reading (Turn Unit Nat)).Parallel
      (do return .stop (← cursor)) f settings (Parallel.Turns Eq f.Near) :=
    parallel_cursor.bind fun _ _ hpos => .pure (.stop hpos.near)
  refine .repeating Eq (fun _ _ _ => (movable_byte? 0).next fun b => ?_) rfl
  split
  · exact hstop
  · exact hstop
  · exact hstop
  · exact (movable_advance 1).next fun _ => .pure (.again rfl)

theorem parallel_blockCommentBody : blockCommentBody.Parallel blockCommentBody f settings f.Near := by
  refine .repeating Eq (fun _ _ _ => (movable_byte? 0).next fun b => ?_) rfl
  split
  · exact .fail _
  · refine (movable_advance 1).next fun _ => (movable_byte? 0).next fun b => ?_
    split
    · refine parallel_behind.bind fun last last' hlast => (movable_advance 1).next fun _ => ?_
      exact .pure (.stop hlast)
    · exact .pure (.again rfl)
  · exact movable_takeReturn.next fun _ => .pure (.again rfl)
  · exact movable_takeFeed.next fun _ => .pure (.again rfl)
  · exact (movable_advance 1).next fun _ => .pure (.again rfl)

theorem parallel_publish_comment (surface : Bool) (hfirst : f.At first first')
    (hlast : f.Near last last') :
    (do
      if surface then
        let span : Span := { first, last }
        let trimmed := trimSpan span (← bytesOf span)
        modify (State.publishComment (.held (← hold trimmed.first trimmed.last))) :
      Reading Unit).Parallel (do
      if surface then
        let span : Span := { first := first', last := last' }
        let trimmed := trimSpan span (← bytesOf span)
        modify (State.publishComment (.held (← hold trimmed.first trimmed.last)))) f settings Eq := by
  split
  · refine (parallel_bytesOf ⟨hfirst, hlast⟩).bind ?_
    rintro bytes _ rfl
    have htrimmed : f.At (trimSpan ⟨first, last⟩ bytes).first (trimSpan ⟨first', last'⟩ bytes).first :=
      hfirst.add _
    refine (parallel_hold htrimmed (htrimmed.add _).near).bind fun span span' hspan => ?_
    exact .modify fun s s' h => h.publish _ (.held hspan)
  · exact movable_pure _

theorem movable_comment (surface : Bool) : (comment surface).Movable f settings := by
  refine (movable_advance 1).next fun _ => (movable_byte? 0).next fun mark => ?_
  split
  · exact movable_fail _
  split
  · exact movable_unexpected _
  refine (movable_advance 1).next fun _ => parallel_cursor.bind fun first first' hfirst => ?_
  dsimp only
  split
  · exact parallel_lineCommentBody.bind fun _ _ hlast => parallel_publish_comment surface hfirst hlast
  · exact parallel_blockCommentBody.bind fun _ _ hlast => parallel_publish_comment surface hfirst hlast

/-! ## Words and numbers -/

theorem movable_matchBytes (matched : Nat) (rest : List UInt8) :
    (matchBytes matched rest).Movable f settings := by
  induction rest generalizing matched with
  | nil => exact (movable_advance matched).next fun _ => movable_pure _
  | cons expected rest ih =>
      refine (movable_byte? matched).next fun b => ?_
      split
      · exact ih (matched + 1)
      · exact (movable_advance matched).next fun _ => movable_pure _

theorem movable_consumeRest (n : Nat) : (consumeRest n).Movable f settings := by
  induction n with
  | zero => exact movable_pure ()
  | succ n ih =>
      refine (movable_byte? 0).next fun b => ?_
      split
      · exact (movable_advance 1).next fun _ => ih
      · exact movable_pure ()

theorem movable_matchWord (literal : Literal) : (matchWord literal).Movable f settings := by
  refine (movable_byte? _).next fun b => ?_
  split
  · exact (movable_consumeRest _).next fun _ => movable_fail _
  · exact movable_matchBytes _ _

theorem movable_atSeparator : atSeparator.Movable f settings := by
  refine (movable_byte? 0).next fun b => ?_
  split
  · exact movable_pure _
  · exact movable_pure _
  · exact movable_pure _
  · exact movable_pure _
  · exact (movable_byte? 1).next fun _ => movable_pure _
  · refine movable_get_bind fun s s' h => ⟨?_, movable_pure _⟩
    rw [h.phase_eq]
  · exact movable_blankLength?.next fun _ => movable_pure _

theorem movable_separateWord (literal : Literal) : (separateWord literal).Movable f settings := by
  refine (movable_matchWord literal).next fun found => ?_
  split
  · exact movable_atSeparator
  · exact movable_pure _

theorem movable_requireWord (literal : Literal) : (requireWord literal).Movable f settings := by
  refine (movable_separateWord literal).next fun found => ?_
  split
  · exact movable_fail _
  · exact movable_pure _

theorem movable_lexemeBytes : lexemeBytes.Movable f settings := by
  refine .repeating (fun _ => (movable_byte? 0).next fun b => ?_) ()
  split
  · exact movable_pure _
  · split
    · exact (movable_advance 1).next fun _ => movable_pure _
    · exact movable_pure _

/-! ## Strings -/

/-- Bodies of the same text. -/
inductive Body.Alike (f : Fork) : Body → Body → Prop where
  | held {span span' : Span} (h : f.Spans span span') : Alike f (.held span) (.held span')
  | decoded (text : String) : Alike f (.decoded text) (.decoded text)

/-- As much is decoded of both bodies. -/
structure Partial.Alike (f : Fork) (p p' : Partial) : Prop where
  start : f.At p.start p'.start
  bytes_eq : p'.bytes = p.bytes
  escaped_eq : p'.escaped = p.escaped

theorem movable_escapeUnit : escapeUnit.Movable f settings := by
  refine (movable_bytes? 0 3).next fun digits => ?_
  split
  · exact movable_fail _
  · split
    · exact (movable_advance 4).next fun _ => movable_pure _
    · exact movable_fail _

theorem movable_surrogates (high : Nat) : (surrogates high).Movable f settings := by
  refine .repeating (fun _ => (movable_byte? 1).next fun second => ?_) _
  refine (movable_byte? 0).next fun first => ?_
  split
  · refine (movable_advance 2).next fun _ => movable_escapeUnit.next fun unit => ?_
    split
    · exact movable_pure _
    · split <;> exact movable_pure _
  · exact movable_pure _

theorem movable_unicodeEscape : unicodeEscape.Movable f settings := by
  refine movable_escapeUnit.next fun unit => ?_
  split
  · exact movable_surrogates _
  · exact movable_pure _

theorem movable_escapeLetter (quote : UInt8) : (escapeLetter quote).Movable f settings := by
  refine (movable_advance 1).next fun _ => (movable_charAt? 0).next fun r => ?_
  split
  · exact movable_fail _
  · exact movable_pure _

theorem movable_escape (letter : Char × Nat) : (escape letter).Movable f settings := by
  refine (movable_advance _).next fun _ => ?_
  split
  · exact movable_unicodeEscape
  · split
    · exact movable_pure _
    · exact movable_fail _

theorem parallel_bodyTurn (quote : UInt8) (hfirst : f.At first first') {p p' : Partial}
    (hp : p.Alike f p') : (bodyTurn quote first p).Parallel (bodyTurn quote first' p') f settings
      (Parallel.Turns (Partial.Alike f) (Body.Alike f)) := by
  refine (movable_byte? 0).next fun b => ?_
  split
  · exact .fail _
  · refine parallel_cursor.bind fun last last' hlast => ?_
    refine (movable_escapeLetter quote).next fun letter => ?_
    refine (parallel_bytesOf ⟨hp.start, hlast.near⟩).bind ?_
    rintro raw _ rfl
    refine (movable_escape letter).next fun chars => parallel_cursor.bind fun start start' hstart => ?_
    refine .pure (.again ⟨hstart, ?_, rfl⟩)
    simp only [Partial.pushEscape, hp.bytes_eq]
  · exact movable_takeReturn.next fun _ => .pure (.again hp)
  · exact movable_takeFeed.next fun _ => .pure (.again hp)
  · split
    · refine parallel_cursor.bind fun last last' hlast => (movable_advance 1).next fun _ => ?_
      rw [hp.escaped_eq]
      split
      · refine (parallel_bytesOf ⟨hp.start, hlast.near⟩).bind ?_
        rintro raw _ rfl
        rw [hp.bytes_eq]
        exact .pure (.stop (.decoded _))
      · exact (parallel_hold hfirst hlast.near).bind fun span span' hspan => .pure (.stop (.held hspan))
    · exact (movable_advance 1).next fun _ => .pure (.again hp)

theorem parallel_quoted (quote : UInt8) :
    (quoted quote).Parallel (quoted quote) f settings (Body.Alike f) := by
  refine (movable_advance 1).next fun _ => movable_settle.next fun _ => ?_
  refine parallel_cursor.bind fun first first' hfirst => ?_
  exact .repeating (Partial.Alike f) (fun p p' hp => parallel_bodyTurn quote hfirst hp) ⟨hfirst, rfl, rfl⟩

theorem parallel_bodyText {b b' : Body} (h : b.Alike f b') :
    (bodyText b).Parallel (bodyText b') f settings Eq := by
  cases h with
  | held h => exact parallel_textOf h
  | decoded text => exact movable_pure text

/-! ## Names -/

theorem parallel_bareName : bareName.Parallel bareName f settings f.Spans := by
  refine parallel_cursor.bind fun first first' hfirst => ?_
  refine .repeating Eq (fun _ _ _ => (movable_charAt? 0).next fun r => ?_) rfl
  split
  · exact .fail _
  · split
    · exact (movable_advance _).next fun _ => .pure (.again rfl)
    · split
      · refine parallel_cursor.bind fun last last' hlast => ?_
        exact (parallel_hold hfirst hlast.near).bind fun span span' hspan => .pure (.stop hspan)
      · exact .fail _

theorem movable_nameText (quote : Option UInt8) : (nameText quote).Movable f settings := by
  cases quote with
  | some mark => exact (parallel_quoted mark).bind fun b b' hb => parallel_bodyText hb
  | none =>
      refine (movable_charAt? 0).next fun r => ?_
      split
      · split
        · exact movable_settle.next fun _ => parallel_bareName.bind fun _ _ hspan => parallel_textOf hspan
        · exact movable_unexpected _
      · exact movable_unexpected _

theorem parallel_constructorName : constructorName.Parallel constructorName f settings f.Near := by
  refine .repeating Eq (fun _ _ _ => (movable_charAt? 0).next fun r => ?_) rfl
  split
  · exact .fail _
  · split
    · exact (movable_advance _).next fun _ => .pure (.again rfl)
    refine parallel_cursor.bind fun last last' hlast => ?_
    split
    · exact .pure (.stop hlast.near)
    split
    · exact movable_takeReturn.next fun _ => .pure (.stop hlast.near)
    split
    · exact movable_takeFeed.next fun _ => .pure (.stop hlast.near)
    split
    · exact (movable_advance _).next fun _ => .pure (.stop hlast.near)
    · exact .fail _

end JsonPull.Reading
