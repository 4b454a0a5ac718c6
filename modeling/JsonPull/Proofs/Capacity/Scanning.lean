import JsonPull.Proofs.Capacity.Reading
import JsonPull.Proofs.Names.Character
import JsonPull.Proofs.Resume.Token

/-! # Tokens that are settled on

The window is settled for every string, number and unquoted name, and only the first byte is looked
at before, except behind a minus sign. In a stream of such tokens and of marks, all questions for
their bytes are in reach. -/

namespace JsonPull

variable {b : UInt8} {c : Char}

/-! ## Characters of names -/

/-- A byte of ASCII at which a name that consists of such bytes does not end. -/
structure IsNamed (b : UInt8) : Prop where
  ascii : b < 0x80
  stays : (Text.isBlank (Char.ofNat b.toNat) || Char.ofNat b.toNat == ':') = false

theorem isNamed_of_isByte (hbyte : Lexeme.isByte b = true) : IsNamed b := by
  have hnone : ¬ (Text.isBlankByte b = true ∨ 0x80 ≤ b) := by
    intro hblank
    rw [Lexeme.isByte_blank hblank] at hbyte
    cases hbyte
  rw [not_or, UInt8.not_le, Bool.not_eq_true] at hnone
  refine ⟨hnone.2, ?_⟩
  rw [Text.isBlank_ofByte hnone.2, hnone.1, Bool.false_or, beq_eq_false_iff_ne]
  intro hcolon
  have hencode := Text.encode_ofByte hnone.2
  rw [hcolon] at hencode
  obtain rfl : 0x3A = b := (List.cons.inj hencode).1
  exact absurd hbyte (by decide)

theorem isNamed_of_isNameChar (hascii : b < 0x80)
    (hname : Reading.isNameChar (Char.ofNat b.toNat) = true) : IsNamed b := by
  refine ⟨hascii, ?_⟩
  rw [Bool.or_eq_false_iff, beq_eq_false_iff_ne]
  constructor
  · by_contra hblank
    rw [isNameChar_of_isBlank (by simpa using hblank)] at hname
    cases hname
  · intro hcolon
    rw [hcolon] at hname
    exact absurd hname (by decide)

/-- What may follow a name: nothing, or a character that cannot continue it. -/
inductive EndsName : List UInt8 → Prop where
  | done : EndsName []
  | char {c : Char} {rest : List UInt8} (h : Reading.isNameChar c = false) :
      EndsName (Text.encode c ++ rest)

theorem endsName_ofByte (hascii : b < 0x80)
    (hrefused : Reading.isNameChar (Char.ofNat b.toNat) = false) (rest : List UInt8) :
    EndsName (b :: rest) := by
  have hchar : EndsName (Text.encode (Char.ofNat b.toNat) ++ rest) := .char hrefused
  rwa [Text.encode_ofByte hascii] at hchar

theorem Terminates.endsName {rest : List UInt8} (hend : Terminates rest) : EndsName rest := by
  cases hend with
  | done => exact .done
  | @mark b rest hmark =>
      simp only [List.mem_cons, List.not_mem_nil, or_false] at hmark
      have hrefused : b < 0x80 ∧ Reading.isNameChar (Char.ofNat b.toNat) = false := by
        rcases hmark with rfl | rfl | rfl | rfl | rfl <;> decide
      exact endsName_ofByte hrefused.1 hrefused.2 rest
  | blank hblank => exact .char (isNameChar_of_isBlank hblank)

/-! ## Plain streams -/

/-- The marks that open and close containers, and those between elements. -/
def marks : List UInt8 := [0x7B, 0x7D, 0x5B, 0x5D, 0x2C, 0x3A]

mutual

/-- A stream of blanks, marks, strings, numbers without a sign, and unquoted names in ASCII that
begin with no letter of a word. No token has more than `longest` bytes. -/
inductive Plain (longest : Nat) : List UInt8 → Prop where
  | done : Plain longest []
  | blank {c : Char} {rest : List UInt8} (hblank : Text.isBlank c = true)
      (hrest : Plain longest rest) : Plain longest (Text.encode c ++ rest)
  | token {b : UInt8} {bytes : List UInt8} (h : Begins longest b bytes) : Plain longest bytes

/-- Such a stream that begins with a token, and which byte that is. -/
inductive Begins (longest : Nat) : UInt8 → List UInt8 → Prop where
  | mark {b : UInt8} {rest : List UInt8} (hmark : b ∈ marks) (hrest : Plain longest rest) :
      Begins longest b (b :: rest)
  | number {b : UInt8} {more rest : List UInt8} (hfirst : Number.isDigit b = true ∨ b = 0x2E)
      (hbytes : ∀ b' ∈ b :: more, Lexeme.isByte b' = true) (hend : Terminates rest)
      (hlength : (b :: more).length ≤ longest) (hrest : Plain longest rest) :
      Begins longest b (b :: more ++ rest)
  | name {b : UInt8} {more rest : List UInt8} (hlead : Lead.ofByte b = .other)
      (hbytes : ∀ b' ∈ b :: more, b' < 0x80 ∧ Reading.isNameChar (Char.ofNat b'.toNat) = true)
      (hend : EndsName rest) (hlength : (b :: more).length ≤ longest)
      (hrest : Plain longest rest) : Begins longest b (b :: more ++ rest)
  | quoted {quote : UInt8} {body rest : List UInt8} (hquote : quote = 0x22 ∨ quote = 0x27)
      (hbody : Closes quote body) (hlength : (quote :: body).length ≤ longest)
      (hrest : Plain longest rest) : Begins longest quote (quote :: body ++ rest)

end

variable {stream rest bytes more body : List UInt8} {longest reach : Nat} {h : Horizon}
  {quote : UInt8} {b? : Option UInt8} {α : Type}

/-- A token begins with a byte of ASCII that is no blank. -/
theorem Begins.solid (hbegins : Begins longest b bytes) : bytes.head? = some b ∧ Reading.Solid b := by
  cases hbegins with
  | mark hmark =>
      refine ⟨rfl, ?_⟩
      simp only [marks, List.mem_cons, List.not_mem_nil, or_false] at hmark
      rcases hmark with rfl | rfl | rfl | rfl | rfl | rfl <;> exact ⟨by decide, by decide⟩
  | number hfirst => exact ⟨rfl, (Reading.lead_number hfirst).2⟩
  | name hlead hbytes =>
      obtain ⟨hascii, hname⟩ := hbytes b (List.mem_cons_self ..)
      refine ⟨rfl, hascii, ?_⟩
      rw [← Text.isBlank_ofByte hascii]
      exact (Bool.or_eq_false_iff.mp (isNamed_of_isNameChar hascii hname).stays).1
  | quoted hquote => exact ⟨rfl, (Reading.lead_quote hquote).2⟩

/-- A mark is a token by itself. -/
theorem Begins.tail (hbegins : Begins longest b bytes) (hmark : b ∈ marks) :
    ∃ rest, bytes = b :: rest ∧ Plain longest rest := by
  cases hbegins with
  | mark _ hrest => exact ⟨_, rfl, hrest⟩
  | number hfirst =>
      simp only [marks, List.mem_cons, List.not_mem_nil, or_false] at hmark
      rcases hmark with rfl | rfl | rfl | rfl | rfl | rfl <;> exact absurd hfirst (by decide)
  | name hlead hbytes =>
      obtain ⟨-, hname⟩ := hbytes b (List.mem_cons_self ..)
      simp only [marks, List.mem_cons, List.not_mem_nil, or_false] at hmark
      rcases hmark with rfl | rfl | rfl | rfl | rfl | rfl <;> exact absurd hname (by decide)
  | quoted hquote =>
      simp only [marks, List.mem_cons, List.not_mem_nil, or_false] at hmark
      rcases hquote with rfl | rfl <;> exact absurd hmark (by decide)

/-- No token begins as a comment does. -/
theorem Begins.ne_slash (hbegins : Begins longest b bytes) : b ≠ 0x2F := by
  rintro rfl
  cases hbegins with
  | mark hmark => exact absurd hmark (by decide)
  | number hfirst => exact absurd hfirst (by decide)
  | name hlead => cases hlead
  | quoted hquote => exact absurd hquote (by decide)

/-- Behind a return there may be a line feed, which is a blank by itself. -/
theorem Plain.feed (hplain : Plain longest (0x0A :: rest)) : Plain longest rest := by
  generalize hbytes : 0x0A :: rest = bytes at hplain
  cases hplain with
  | done => cases hbytes
  | blank hblank hrest =>
      rcases Text.encode_blank hblank with ⟨b, hb, -⟩ | ⟨lead, tail, hb, hle⟩
      · rw [hb] at hbytes
        cases hbytes
        exact hrest
      · rw [hb] at hbytes
        cases hbytes
        exact absurd hle (by decide)
  | token hbegins =>
      obtain ⟨hhead, hsolid⟩ := hbegins.solid
      rw [← hbytes] at hhead
      cases hhead
      exact absurd hsolid.2 (by decide)

theorem Plain.ahead {pos : Nat} (hplain : Plain longest rest) (hahead : Ahead stream pos rest) :
    Plain longest (stream.drop pos) := by
  unfold Ahead at hahead
  rwa [hahead]

/-- A byte is at the cursor, or the end, and it was asked for. -/
structure Horizon.Faces (stream : List UInt8) (b? : Option UInt8) (h : Horizon) : Prop where
  byte : stream[h.pos + 0]? = b?
  known : h.pos + 0 < h.seen ∨ h.ended = true

theorem Horizon.faces_after (stream : List UInt8) (h : Horizon) (retain : Retain) :
    (h.after stream (.byte 0 retain)).Faces stream stream[h.pos + 0]? := by
  refine ⟨rfl, ?_⟩
  unfold Horizon.after
  dsimp only
  split
  · exact .inl (by omega)
  · exact .inr (by simp; omega)

/-- A cursor at the end or at a token of a plain stream. -/
structure Horizon.AtToken (longest : Nat) (stream : List UInt8) (b? : Option UInt8) (h : Horizon) :
    Prop where
  faces : h.Faces stream b?
  begins : ∀ b ∈ b?, Begins longest b (stream.drop h.pos)

theorem Horizon.AtToken.plain (htoken : h.AtToken longest stream b?) :
    Plain longest (stream.drop h.pos) := by
  cases b? with
  | none =>
      have hend : stream.length ≤ h.pos := List.getElem?_eq_none_iff.mp htoken.faces.byte
      rw [List.drop_eq_nil_of_le hend]
      exact .done
  | some b => exact .token (htoken.begins b rfl)

theorem Horizon.AtToken.ascii (htoken : h.AtToken longest stream b?) : ∀ b ∈ b?, b < 0x80 :=
  fun b hb => (htoken.begins b hb).solid.2.1

namespace Reading

/-! ## Blanks -/

theorem confined_advance (count : Nat) : (advance count).Confined stream reach h
    fun _ h' => h' = { h with pos := h.pos + count } := .ask trivial rfl

theorem confined_modify (f : State → State) :
    (modify f : Reading Unit).Confined stream reach h fun _ h' => h' = h := .modify rfl

theorem confined_update (f : Settings → State → State) :
    (update f).Confined stream reach h fun _ h' => h' = h := .update rfl

theorem confined_cursor : cursor.Confined stream reach h fun first h' => first = h.pos ∧ h' = h :=
  .ask trivial ⟨rfl, rfl⟩

theorem confined_startLine : startLine.Confined stream reach h fun _ h' => h' = h := by
  refine confined_cursor.bind ?_
  rintro _ _ ⟨rfl, rfl⟩
  exact confined_modify _

theorem confined_byte?_unread (hreach : 8 ≤ reach) :
    (byte? 0 .unread).Confined stream reach h fun b? h' =>
      stream[h.pos + 0]? = b? ∧ h'.pos = h.pos ∧ h'.Faces stream b? :=
  .byte? (.inr (.inr ⟨h.pos, rfl, by omega⟩)) ⟨rfl, rfl, h.faces_after stream .unread⟩

theorem confined_takeReturn (hreach : 8 ≤ reach) (hrest : Ahead stream (h.pos + 1) rest)
    (hplain : Plain longest rest) :
    (takeReturn .unread).Confined stream reach h fun _ h' => Plain longest (stream.drop h'.pos) := by
  refine (confined_advance 1).bind ?_
  rintro _ _ rfl
  refine (confined_byte?_unread hreach).bind ?_
  rintro b? h' ⟨hb?, hpos, -⟩
  rw [hrest.head?] at hb?
  dsimp only at hpos ⊢
  split
  · rename_i hfeed
    refine (confined_advance 1).bind ?_
    rintro _ _ rfl
    refine confined_startLine.bind ?_
    rintro _ _ rfl
    refine .pure ?_
    cases rest with
    | nil =>
        subst hb?
        cases hfeed
    | cons b rest =>
        subst hb?
        obtain rfl : b = 0x0A := by simpa using hfeed
        dsimp only
        rw [hpos]
        exact hplain.feed.ahead hrest.tail
  · refine confined_startLine.bind ?_
    rintro _ _ rfl
    refine .pure ?_
    rw [hpos]
    exact hplain.ahead hrest

/-- A blank that is no line break is consumed as a whole. -/
theorem confined_blankLength? (hreach : 8 ≤ reach) (hblank : Text.isBlank c = true)
    (hahead : Ahead stream h.pos (Text.encode c ++ rest)) :
    (blankLength? .unread).Confined stream reach h fun length? h' =>
      length? = some (Text.encode c).length ∧ h'.pos = h.pos := by
  have hgives : ∀ settings s, (blankLength? .unread).Gives settings stream s h.pos
      fun length? _ pos' => length? = some (Text.encode c).length ∧ pos' = h.pos := by
    refine fun settings s => Lands.gives (Succeeds.lands ?_)
    refine (succeeds_blankLength?_blank hblank hahead).mono ?_
    rintro _ _ _ ⟨rfl, -, rfl⟩ _ ⟨⟩
    exact ⟨rfl, rfl⟩
  exact (near_blankLength?.confined_unread hreach hgives).mono fun _ _ hr => hr.1

/-- A byte that begins a token is no blank. -/
theorem confined_blankLength?_solid (hreach : 8 ≤ reach) (hfaces : h.Faces stream (some b))
    (hsolid : Solid b) :
    (blankLength? .unread).Confined stream reach h fun length? h' =>
      length? = none ∧ h'.pos = h.pos ∧ h'.Faces stream (some b) := by
  refine (confined_byte?_unread hreach).bind ?_
  rintro b? h' ⟨hb?, hpos, hfaces'⟩
  obtain rfl := hb?.symm.trans hfaces.byte
  dsimp only
  rw [if_pos hsolid.1, hsolid.2]
  exact .pure ⟨rfl, hpos, hfaces'⟩

/-- A byte that begins a blank is the whole of it, if it is one of ASCII. -/
theorem ahead_blank {pos : Nat} (hblank : Text.isBlank c = true)
    (hahead : Ahead stream pos (Text.encode c ++ rest))
    (hhead : (Text.encode c ++ rest).head? = some b) (hascii : b < 0x80) :
    Ahead stream (pos + 1) rest := by
  rcases Text.encode_blank hblank with ⟨b', hb, -⟩ | ⟨lead, tail, hb, hle⟩
  · rw [hb] at hahead
    exact hahead.tail
  · rw [hb] at hhead
    cases hhead
    exact absurd hascii (UInt8.not_lt.mpr hle)

theorem confined_skipBlanks (hreach : 8 ≤ reach) (hplain : Plain longest (stream.drop h.pos)) :
    skipBlanks.Confined stream reach h fun b? h' => h'.AtToken longest stream b? := by
  refine .repeating (fun _ h => Plain longest (stream.drop h.pos)) ?_ hplain
  intro _ h hplain
  refine (confined_byte?_unread hreach).bind ?_
  rintro b? h' ⟨hb?, hpos, hfaces⟩
  rw [← hpos] at hplain hb?
  clear hpos
  generalize hahead : stream.drop h'.pos = bytes at hplain
  have hahead : Ahead stream h'.pos bytes := hahead
  rw [hahead.head?] at hb?
  cases hplain with
  | done =>
      subst hb?
      exact .pure ⟨hfaces, nofun⟩
  | blank hblank hrest =>
      split
      · exact .pure ⟨hfaces, nofun⟩
      · have hnext := ahead_blank hblank hahead hb? (by decide)
        exact (confined_takeReturn hreach hnext hrest).bind fun _ _ hr => .pure hr
      · have hnext := ahead_blank hblank hahead hb? (by decide)
        refine (confined_advance 1).bind ?_
        rintro _ _ rfl
        refine confined_startLine.bind ?_
        rintro _ _ rfl
        exact .pure (hrest.ahead hnext)
      · refine (confined_blankLength? hreach hblank hahead).bind ?_
        rintro _ h₁ ⟨rfl, hpos⟩
        refine (confined_advance _).bind ?_
        rintro _ _ rfl
        have hnext := hahead.skip
        rw [← hpos] at hnext
        exact .pure (hrest.ahead hnext)
  | token hbegins =>
      obtain ⟨hhead, hascii, hsolid⟩ := hbegins.solid
      rw [hhead] at hb?
      subst hb?
      split
      · rename_i heq
        cases heq
      · rename_i heq
        cases heq
        exact absurd hsolid (by decide)
      · rename_i heq
        cases heq
        exact absurd hsolid (by decide)
      · rename_i heq
        cases heq
        refine (confined_blankLength?_solid hreach hfaces ⟨hascii, hsolid⟩).bind ?_
        rintro _ h₁ ⟨rfl, hpos, hfaces₁⟩
        refine .pure ⟨hfaces₁, ?_⟩
        rintro _ ⟨⟩
        rw [hpos]
        exact hahead ▸ hbegins

/-! ## Failures at a token -/

theorem confined_byte?_faced (hfaces : h.Faces stream b?) :
    (byte? 0 .all).Confined stream reach h fun r h' =>
      r = b? ∧ h'.pos = h.pos ∧ h'.Faces stream b? := by
  have hafter := h.faces_after stream .all
  rw [hfaces.byte] at hafter
  exact .byte? (hfaces.known.imp_right .inl) ⟨hfaces.byte, rfl, hafter⟩

theorem confined_charAt?_faced (hfaces : h.Faces stream b?) (hascii : ∀ b ∈ b?, b < 0x80) :
    (charAt? 0 .all).Confined stream reach h fun r h' =>
      r = b?.map (fun b => (Char.ofNat b.toNat, 1)) ∧ h'.pos = h.pos ∧ h'.Faces stream b? := by
  refine (confined_byte?_faced hfaces).bind ?_
  rintro _ h' ⟨rfl, hpos, hfaces'⟩
  split
  · exact .pure ⟨rfl, hpos, hfaces'⟩
  · rename_i b
    rw [if_pos (hascii b rfl)]
    exact .pure ⟨rfl, hpos, hfaces'⟩

theorem confined_foundAtCursor (hfaces : h.Faces stream b?) (hascii : ∀ b ∈ b?, b < 0x80) :
    foundAtCursor.Confined stream reach h fun _ _ => True := by
  refine (confined_charAt?_faced hfaces hascii).bind fun r h' _ => ?_
  split <;> exact .pure trivial

theorem confined_unexpected {post : α → Horizon → Prop} (hfaces : h.Faces stream b?)
    (hascii : ∀ b ∈ b?, b < 0x80) (site : CharSite) :
    (unexpected site : Reading α).Confined stream reach h post :=
  (confined_foundAtCursor hfaces hascii).bind fun _ _ _ => .fail _

/-! ## Strings and numbers -/

theorem confined_hold (first last : Nat) : (hold first last).Confined stream reach h
    fun span h' => span = { first, last } ∧ h' = h := by
  have hask : (ask (.hold first last)).Confined stream reach h fun _ h' => h' = h :=
    .ask trivial rfl
  refine hask.bind ?_
  rintro _ _ rfl
  exact .pure ⟨rfl, rfl⟩

theorem confined_bytesOf (span : Span) :
    (bytesOf span).Confined stream reach h fun _ h' => h' = h := by
  have hask : (ask (.slice span.first span.last)).Confined stream reach h
      fun bytes? h' => bytes?.isSome = true ∧ h' = h := .ask trivial ⟨rfl, rfl⟩
  refine hask.bind ?_
  rintro (_ | bytes) _ ⟨hsome, rfl⟩
  · cases hsome
  · exact .pure rfl

theorem confined_settle : settle.Confined stream reach h
    fun _ h' => h' = { h with settled := some h.pos } := .ask trivial rfl

/-- A string is settled on behind its opening quote. -/
theorem confined_quoted (hquote : quote = 0x22 ∨ quote = 0x27) (hbody : Closes quote body)
    (hlength : (quote :: body).length ≤ longest)
    (hahead : Ahead stream h.pos (quote :: body ++ rest)) :
    (quoted quote).Confined stream (longest + 8) h fun _ h' => Ahead stream h'.pos rest := by
  refine (confined_advance 1).bind ?_
  rintro _ _ rfl
  refine confined_settle.bind ?_
  rintro _ _ rfl
  have hmarks : quote ≠ 0x5C ∧ quote ≠ 0x0D ∧ quote ≠ 0x0A := by
    rcases hquote with rfl | rfl <;> decide
  rw [List.length_cons] at hlength
  refine ((near_body quote).confined (fun _ pos' => Ahead stream pos' rest) rfl
    fun settings s => Succeeds.lands ?_).mono fun _ _ hr => hr.1
  rw [Reading.body, succeeds_bind, succeeds_cursor]
  refine (succeeds_bodyTurns_closes hmarks hbody hahead.tail _ _).mono ?_
  rintro b s' pos' ⟨-, rfl⟩
  refine ⟨by dsimp only; omega, ?_⟩
  rintro _ -
  exact hahead.tail.skip

theorem confined_textOf (span : Span) :
    (textOf span).Confined stream reach h fun _ h' => h' = h := by
  have hask : (ask (.resolve span.first span.last)).Confined stream reach h
      fun bytes? h' => bytes?.isSome = true ∧ h' = h := .ask trivial ⟨rfl, rfl⟩
  refine hask.bind ?_
  rintro (_ | bytes) _ ⟨hsome, rfl⟩
  · cases hsome
  · exact .pure rfl

theorem confined_bodyText (b : Body) :
    (bodyText b).Confined stream reach h fun _ h' => h' = h := by
  cases b with
  | held span => exact confined_textOf span
  | decoded text => exact .pure rfl

theorem confined_publishText (dates : DateHandling) (b : Body) :
    (publishText dates b).Confined stream reach h fun _ h' => h' = h := by
  unfold publishText
  dsimp only
  split
  · exact .update rfl
  · have hdate : (dateOf? dates <$> bodyText b).Confined stream reach h fun _ h' => h' = h :=
      .map (confined_bodyText b)
    refine hdate.bind ?_
    rintro date? _ rfl
    split <;> exact .update rfl

theorem confined_publishBytes (b : Body) :
    (publishBytes b).Confined stream reach h fun _ h' => h' = h := by
  refine (confined_bodyText b).bind ?_
  rintro text _ rfl
  split
  · exact .update rfl
  · exact .fail _

theorem confined_stringValue (request : Request) (hquote : quote = 0x22 ∨ quote = 0x27)
    (hbody : Closes quote body) (hlength : (quote :: body).length ≤ longest)
    (hahead : Ahead stream h.pos (quote :: body ++ rest)) :
    (stringValue quote request).Confined stream (longest + 8) h
      fun _ h' => Ahead stream h'.pos rest := by
  refine (confined_quoted hquote hbody hlength hahead).bind fun b h' hend => ?_
  refine (confined_update _).bind ?_
  rintro _ _ rfl
  refine (confined_modify _).bind ?_
  rintro _ _ rfl
  split
  · refine (confined_publishBytes b).mono ?_
    rintro _ _ rfl
    exact hend
  · refine .read_bind fun settings => (confined_publishText _ b).mono ?_
    rintro _ _ rfl
    exact hend

theorem confined_failNumber {post : α → Horizon → Prop} (fault : NumberFault) :
    (failNumber fault : Reading α).Confined stream reach h post :=
  (confined_update _).bind fun _ _ _ => .fail _

/-- A number is settled on. -/
theorem confined_numberValue (request : Request) (hbytes : ∀ b ∈ bytes, Lexeme.isByte b = true)
    (hend : Terminates rest) (hlength : bytes.length ≤ longest)
    (hahead : Ahead stream h.pos (bytes ++ rest)) :
    (numberValue request).Confined stream (longest + 8) h
      fun _ h' => Ahead stream h'.pos rest := by
  refine confined_settle.bind ?_
  rintro _ _ rfl
  refine confined_cursor.bind ?_
  rintro _ _ ⟨rfl, rfl⟩
  have hlexeme : lexeme.Confined stream (longest + 8) { h with settled := some h.pos }
      fun _ h' => Ahead stream h'.pos rest := by
    refine (near_lexeme.confined (fun _ pos' => Ahead stream pos' rest) rfl
      fun settings s => Succeeds.lands ?_).mono fun _ _ hr => hr.1
    refine (succeeds_lexeme hbytes hend hahead).mono ?_
    rintro _ s' pos' ⟨-, rfl⟩
    refine ⟨by omega, ?_⟩
    rintro _ -
    exact hahead.skip
  refine hlexeme.bind fun _ h' hafter => ?_
  refine (confined_update _).bind ?_
  rintro _ _ rfl
  refine confined_cursor.bind ?_
  rintro _ _ ⟨rfl, rfl⟩
  refine (confined_hold _ _).bind ?_
  rintro _ _ ⟨rfl, rfl⟩
  refine (confined_bytesOf _).bind ?_
  rintro spelling _ rfl
  refine .read_bind fun settings => ?_
  split
  · exact .update hafter
  · exact .update hafter
  · exact confined_failNumber _

/-! ## Names -/

/-- The character at the cursor, in a token that was settled on. -/
theorem confined_charAt?_settled {first : Nat} (hsettled : h.settled = some first)
    (hnear : h.pos ≤ first + longest) (hahead : Ahead stream h.pos (Text.encode c ++ rest)) :
    (charAt? 0 .all).Confined stream (longest + 8) h fun r h' =>
      (r = some (c, (Text.encode c).length) ∧ h'.pos = h.pos) ∧ h'.settled = some first := by
  refine near_charAt?.confined (fun r pos' => r = some (c, (Text.encode c).length) ∧ pos' = h.pos)
    hsettled fun settings s => Succeeds.lands ?_
  refine (succeeds_charAt?_encode hahead).mpr ⟨hnear, ?_⟩
  rintro _ ⟨⟩
  exact ⟨rfl, rfl⟩

theorem confined_charAt?_end {first : Nat} (hsettled : h.settled = some first)
    (hnear : h.pos ≤ first + longest) (hahead : Ahead stream h.pos []) :
    (charAt? 0 .all).Confined stream (longest + 8) h fun r h' =>
      r = none ∧ h'.settled = some first := by
  refine near_charAt?.confined (fun r _ => r = none) hsettled fun settings s => Succeeds.lands ?_
  rw [charAt?, succeeds_bind, succeeds_byte?, hahead.head?]
  refine (succeeds_pure _).mpr ⟨hnear, ?_⟩
  rintro _ ⟨⟩
  rfl

/-- A name is consumed as a whole, or it is refused. -/
theorem confined_bareName (hbytes : ∀ b ∈ bytes, IsNamed b) (hend : EndsName rest)
    (hlength : bytes.length ≤ longest) (hahead : Ahead stream h.pos (bytes ++ rest))
    (hsettled : h.settled = some h.pos) :
    bareName.Confined stream (longest + 8) h fun _ h' => Ahead stream h'.pos rest := by
  refine confined_cursor.bind ?_
  rintro _ h ⟨rfl, rfl⟩
  refine .repeating (fun _ h₁ => ∃ more, (∀ b ∈ more, IsNamed b) ∧
    Ahead stream h₁.pos (more ++ rest) ∧ h₁.pos + more.length ≤ h.pos + longest ∧
    h₁.settled = some h.pos) ?_ ⟨bytes, hbytes, hahead, by omega, hsettled⟩
  rintro _ h₁ ⟨more, hmore, hahead₁, hnear, hsettled₁⟩
  cases more with
  | cons b more =>
      obtain ⟨hascii, hstays⟩ := hmore b (List.mem_cons_self ..)
      have hencode := Text.encode_ofByte hascii
      have hchar : Ahead stream h₁.pos (Text.encode (Char.ofNat b.toNat) ++ (more ++ rest)) := by
        rwa [hencode]
      rw [List.length_cons] at hnear
      refine (confined_charAt?_settled hsettled₁ (by omega) hchar).bind ?_
      rintro _ h₂ ⟨⟨rfl, hpos⟩, hsettled₂⟩
      dsimp only
      split
      · refine (confined_advance _).bind ?_
        rintro _ _ rfl
        rw [hencode]
        refine .pure ⟨more, fun b' hb' => hmore b' (List.mem_cons_of_mem _ hb'), ?_, ?_, hsettled₂⟩
        · dsimp only [List.length_cons, List.length_nil]
          rw [hpos]
          exact hahead₁.tail
        · dsimp only [List.length_cons, List.length_nil]
          omega
      · split
        · rename_i hends
          rw [hstays] at hends
          cases hends
        · exact .fail _
  | nil =>
      cases hend with
      | done =>
          refine (confined_charAt?_end hsettled₁ (by simpa using hnear) hahead₁).bind ?_
          rintro _ _ ⟨rfl, -⟩
          exact .fail _
      | @char c after hrefused =>
          refine (confined_charAt?_settled hsettled₁ (by simpa using hnear) hahead₁).bind ?_
          rintro _ h₂ ⟨⟨rfl, hpos⟩, -⟩
          dsimp only
          rw [hrefused, if_neg Bool.false_ne_true]
          have hrest : Ahead stream h₂.pos (Text.encode c ++ after) := by rwa [hpos]
          split
          · refine confined_cursor.bind ?_
            rintro _ _ ⟨rfl, rfl⟩
            refine (confined_hold _ _).bind ?_
            rintro _ _ ⟨rfl, rfl⟩
            exact .pure hrest
          · exact .fail _

/-- What has no quotes is refused as a name, or it is settled on. -/
theorem confined_nameText_bare (hfaces : h.Faces stream (some b)) (hascii : b < 0x80)
    (hbytes : isNameChar (Char.ofNat b.toNat) = true → ∀ b ∈ bytes, IsNamed b)
    (hend : EndsName rest) (hlength : bytes.length ≤ longest)
    (hahead : Ahead stream h.pos (bytes ++ rest)) :
    (nameText none).Confined stream (longest + 8) h fun _ h' => Ahead stream h'.pos rest := by
  have hhead : ∀ b' ∈ some b, b' < 0x80 := by
    rintro _ ⟨⟩
    exact hascii
  refine (confined_charAt?_faced hfaces hhead).bind ?_
  rintro _ h' ⟨rfl, hpos, hfaces'⟩
  dsimp only [Option.map_some]
  split
  · rename_i hname
    refine confined_settle.bind ?_
    rintro _ _ rfl
    rw [← hpos] at hahead
    have hbare : bareName.Confined stream (longest + 8) { h' with settled := some h'.pos }
        fun _ h₁ => Ahead stream h₁.pos rest :=
      confined_bareName (hbytes hname) hend hlength hahead rfl
    refine hbare.bind fun span h₁ hr => ?_
    refine (confined_textOf span).mono ?_
    rintro _ _ rfl
    exact hr
  · exact confined_unexpected hfaces' hhead _

/-- A token in the place of a name is one, with or without quotes, or it is refused. -/
theorem confined_nameText (htoken : h.AtToken longest stream (some b)) :
    (nameText ((some b).filter fun b => b == 0x22 || b == 0x27)).Confined stream (longest + 8) h
      fun _ h' => Plain longest (stream.drop h'.pos) := by
  have hascii := htoken.ascii b rfl
  have hbegins := htoken.begins b rfl
  have hbare : Lead.ofByte b ≠ .quote b → (some b).filter (fun b => b == 0x22 || b == 0x27) = none := by
    intro hlead
    rw [Option.filter_some, if_neg]
    intro hquote
    exact hlead (lead_quote (by simpa using hquote)).1
  generalize hahead : stream.drop h.pos = bytes at hbegins
  have hahead : Ahead stream h.pos bytes := hahead
  cases hbegins with
  | @mark b rest hmark hrest =>
      have hrefused : Lead.ofByte b ≠ .quote b ∧ isNameChar (Char.ofNat b.toNat) = false := by
        simp only [marks, List.mem_cons, List.not_mem_nil, or_false] at hmark
        rcases hmark with rfl | rfl | rfl | rfl | rfl | rfl <;> decide
      have hend := endsName_ofByte hascii hrefused.2 rest
      have hnothing : Ahead stream h.pos ([] ++ (b :: rest)) := hahead
      rw [hbare hrefused.1]
      refine (confined_nameText_bare htoken.faces hascii (fun hname => ?_) hend (Nat.zero_le _)
        hnothing).mono fun _ _ hr => Plain.ahead (.token (.mark hmark hrest)) hr
      rw [hrefused.2] at hname
      cases hname
  | @number b more rest hfirst hbytes hend hlength hrest =>
      rw [hbare (by rw [(lead_number hfirst).1]; nofun)]
      exact (confined_nameText_bare htoken.faces hascii
        (fun _ b' hb' => isNamed_of_isByte (hbytes b' hb')) hend.endsName hlength hahead).mono
        fun _ _ hr => hrest.ahead hr
  | name hlead hbytes hend hlength hrest =>
      rw [hbare (by rw [hlead]; nofun)]
      refine (confined_nameText_bare htoken.faces hascii (fun _ b' hb' => ?_) hend hlength hahead).mono
        fun _ _ hr => hrest.ahead hr
      obtain ⟨hascii', hname⟩ := hbytes b' hb'
      exact isNamed_of_isNameChar hascii' hname
  | quoted hquote hbody hlength hrest =>
      have hfilter : ((some b).filter fun b => b == 0x22 || b == 0x27) = some b := by
        rcases hquote with rfl | rfl <;> rfl
      rw [hfilter]
      refine (confined_quoted hquote hbody hlength hahead).bind fun body h' hr => ?_
      refine (confined_bodyText body).mono ?_
      rintro _ _ rfl
      exact hrest.ahead hr

end Reading

end JsonPull
