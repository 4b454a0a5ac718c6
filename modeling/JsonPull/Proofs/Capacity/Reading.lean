import JsonPull.Proofs.Capacity.Window
import JsonPull.Proofs.Reading.Outcome

/-! # Readings that stay in reach

A reading is confined if all its questions are in reach on a tape. A scan that never looks far ahead
is confined by where it ends: if that is not far from where the window was settled, no question was. -/

namespace JsonPull

variable {α β : Type} {stream : List UInt8} {reach longest first : Nat} {h : Horizon}
  {retain : Retain}

/-! ## Scans -/

/-- A question for a byte close to the cursor, or for none. The window is not settled. -/
def Query.IsNear (retain : Retain) : Query → Prop
  | byte ahead retain' => ahead < 8 ∧ retain' = retain
  | settle => False
  | _ => True

namespace Scan

/-- Whatever is answered, all questions are near. -/
def Near (retain : Retain) : Scan α → Prop
  | done _ => True
  | ask q next => q.IsNear retain ∧ ∀ a, (next a).Near retain

theorem Near.bind {scan : Scan β} {f : β → Scan α} (hscan : scan.Near retain)
    (hf : ∀ b, (f b).Near retain) : (scan.bind f).Near retain := by
  induction scan with
  | done b => exact hf b
  | ask q next ih => exact ⟨hscan.1, fun a => ih a (hscan.2 a)⟩

theorem Confined.mono {last last' : α → Horizon → Prop} {scan : Scan α}
    (hscan : scan.Confined stream reach last h) (hlast : ∀ a h', last a h' → last' a h') :
    scan.Confined stream reach last' h := by
  induction scan generalizing h with
  | done a => exact hlast a h hscan
  | ask q next ih => exact ⟨hscan.1, ih _ hscan.2⟩

theorem Confined.bind {mid : β → Horizon → Prop} {last : α → Horizon → Prop} {scan : Scan β}
    {f : β → Scan α} (hscan : scan.Confined stream reach mid h)
    (hf : ∀ b h', mid b h' → (f b).Confined stream reach last h') :
    (scan.bind f).Confined stream reach last h := by
  induction scan generalizing h with
  | done b => exact hf b h hscan
  | ask q next ih => exact ⟨hscan.1, ih _ hscan.2⟩

theorem le_tape (q : Query) (pos : Nat) : pos ≤ (tape stream q pos).2 := by
  cases q with
  | advance count => exact Nat.le_add_right pos count
  | _ => exact le_refl pos

theorem le_runWith_tape (scan : Scan α) (pos : Nat) :
    pos ≤ (scan.runWith (tape stream) pos).2 := by
  induction scan generalizing pos with
  | done a => exact le_refl pos
  | ask q next ih => exact (le_tape q pos).trans (ih _ _)

/-- A near question takes back nothing that was known. -/
theorem after_near (stream : List UInt8) (h : Horizon) {q : Query} (hq : q.IsNear retain) :
    (retain = .all → (h.after stream q).settled = h.settled) ∧
      h.seen ≤ (h.after stream q).seen ∧ (h.ended = true → (h.after stream q).ended = true) := by
  cases q with
  | byte ahead retain' =>
      obtain ⟨-, rfl⟩ := hq
      refine ⟨?_, ?_, fun he => by simp [Horizon.after, he]⟩
      · rintro rfl
        rfl
      · unfold Horizon.after
        dsimp only
        split
        · exact le_max_left _ _
        · exact le_rfl
  | settle => exact hq.elim
  | advance | cursor | past | behind | hold | slice | resolve | budget =>
      exact ⟨fun _ => rfl, le_rfl, id⟩

/-- Where all questions are near, they are in reach if the end is not far behind what is kept. -/
theorem Near.confined {scan : Scan α} (hscan : scan.Near retain)
    (hreach : ∀ pos, pos ≤ (scan.runWith (tape stream) h.pos).2 →
      ∃ first ∈ retain.select h.settled (some pos), pos + 8 ≤ first + reach) :
    scan.Confined stream reach
      (fun a h' => scan.runWith (tape stream) h.pos = (a, h'.pos) ∧
        (retain = .all → h'.settled = h.settled) ∧ h.seen ≤ h'.seen ∧
        (h.ended = true → h'.ended = true)) h := by
  induction scan generalizing h with
  | done a => exact ⟨rfl, fun _ => rfl, le_rfl, id⟩
  | ask q next ih =>
      have hnear : q.IsNear retain := hscan.1
      obtain ⟨hsettled, hseen, hended⟩ := after_near stream h hnear
      have hpos := h.pos_after stream q
      have hle : (tape stream q h.pos).2 ≤
          ((next (tape stream q h.pos).1).runWith (tape stream) (tape stream q h.pos).2).2 :=
        le_runWith_tape _ _
      have hrest := ih (tape stream q h.pos).1 (h := h.after stream q) (hscan.2 _) fun pos hpos' => by
        have hkept := hreach pos (by rwa [hpos] at hpos')
        cases retain with
        | all => rwa [hsettled rfl]
        | unread => exact hkept
      refine ⟨?_, hrest.mono ?_⟩
      · cases q with
        | byte ahead retain' =>
            obtain ⟨hahead, rfl⟩ := hnear
            obtain ⟨first, hfirst, hkept⟩ := hreach h.pos ((le_tape _ _).trans hle)
            exact .inr (.inr ⟨first, hfirst, by omega⟩)
        | settle => trivial
        | advance | cursor | past | behind | hold | slice | resolve | budget => trivial
      · rintro a h' ⟨hrun, hsettled', hseen', hended'⟩
        rw [hpos] at hrun
        exact ⟨hrun, fun hall => (hsettled' hall).trans (hsettled hall), hseen.trans hseen',
          fun he => hended' (hended he)⟩

end Scan

namespace Reading

variable {τ : Type} {post post' : α → Horizon → Prop}

/-! ## Near readings -/

/-- Whatever the state is and whatever is answered, all questions are near. -/
structure Near (retain : Retain) (x : Reading α) : Prop where
  run : ∀ settings s, ((x.run settings).run.run s).Near retain

namespace Near

theorem bind {x : Reading β} {f : β → Reading α} (hx : x.Near retain)
    (hf : ∀ b, (f b).Near retain) : (x >>= f).Near retain := by
  refine ⟨fun settings s => ?_⟩
  rw [run_bind]
  refine (hx.run settings s).bind ?_
  rintro ⟨e | b, s'⟩
  · trivial
  · exact (hf b).run settings s'

theorem pure (a : α) : (Pure.pure a : Reading α).Near retain := ⟨fun _ _ => trivial⟩

theorem ask (q : Query) (hq : q.IsNear retain) : (Reading.ask q).Near retain :=
  ⟨fun _ _ => ⟨hq, fun _ => trivial⟩⟩

theorem fail (kind : ErrorKind) : (Reading.fail kind : Reading α).Near retain :=
  ⟨fun _ _ => ⟨trivial, fun _ => trivial⟩⟩

theorem modify (f : State → State) :
    (MonadState.modifyGet fun s => ((), f s) : Reading Unit).Near retain :=
  ⟨fun _ _ => trivial⟩

theorem update (f : Settings → State → State) : (Reading.update f).Near retain :=
  ⟨fun _ _ => trivial⟩

theorem byte? {ahead : Nat} (hahead : ahead < 8) : (Reading.byte? ahead retain).Near retain := by
  refine (ask (.byte ahead retain) ⟨hahead, rfl⟩).bind fun answer => ?_
  split
  · exact pure _
  · exact fail _
  · exact fail _

theorem repeating {turn : τ → Reading (Turn τ α)} (hturn : ∀ x, (turn x).Near retain) (x : τ) :
    (Reading.repeating turn x).Near retain := by
  refine (ask .budget trivial).bind fun n => ?_
  refine repeatAtMost_induction (fun _ y => y.Near retain) (fun _ _ => fail _) ?_ (n + 1) x
  refine fun x next ih => (hturn x).bind fun r => ?_
  cases r with
  | again x' => exact ih x'
  | stop a => exact pure a

end Near

theorem near_cursor : cursor.Near retain := .ask .cursor trivial

theorem near_advance (count : Nat) : (advance count).Near retain :=
  .ask (.advance count) trivial

theorem near_bytesOf (span : Span) : (bytesOf span).Near retain := by
  refine (Near.ask (.slice span.first span.last) trivial).bind fun bytes => ?_
  cases bytes with
  | none => exact .fail _
  | some bytes => exact .pure bytes

theorem near_hold (first last : Nat) : (hold first last).Near retain :=
  (Near.ask (.hold first last) trivial).bind fun _ => .pure _

theorem near_bytes? {ahead count : Nat} (h : ahead + count < 8) :
    (bytes? ahead count retain).Near retain := by
  refine (Near.byte? h).bind fun b => ?_
  split
  · exact near_cursor.bind fun _ => (near_bytesOf _).bind fun _ => .pure _
  · exact .pure _

theorem near_charAt? : (charAt? 0 retain).Near retain := by
  refine (Near.byte? (by decide)).bind fun b => ?_
  split
  · exact .pure _
  · rename_i lead
    dsimp only
    split
    · exact .pure _
    split
    · exact .pure _
    have hlength : Text.sequenceLength lead ≤ 4 := by
      unfold Text.sequenceLength
      split_ifs <;> omega
    refine (near_bytes? (by omega)).bind fun bytes => ?_
    split
    · exact .pure _
    · split <;> exact .pure _

theorem near_foundAtCursor : foundAtCursor.Near .all := by
  refine near_charAt?.bind fun r => ?_
  split <;> exact .pure _

theorem near_startLine : startLine.Near retain := near_cursor.bind fun _ => .modify _

theorem near_takeReturn : (takeReturn retain).Near retain := by
  refine (near_advance 1).bind fun _ => (Near.byte? (by decide)).bind fun b => ?_
  dsimp only
  split
  · exact (near_advance 1).bind fun _ => near_startLine.bind fun _ => .pure _
  · exact near_startLine.bind fun _ => .pure _

theorem near_takeFeed : takeFeed.Near retain := (near_advance 1).bind fun _ => near_startLine

theorem near_blankLength? : (blankLength? retain).Near retain := by
  refine (Near.byte? (by decide)).bind fun b => ?_
  split
  · exact .pure _
  · split
    · exact .pure _
    · refine near_charAt?.bind fun r => ?_
      split <;> exact .pure _

/-! ### Strings and numbers -/

theorem near_escapeUnit : escapeUnit.Near .all := by
  refine (near_bytes? (by decide)).bind fun digits => ?_
  split
  · exact .fail _
  · split
    · exact (near_advance 4).bind fun _ => .pure _
    · exact .fail _

theorem near_unicodeEscape : unicodeEscape.Near .all := by
  refine near_escapeUnit.bind fun unit => ?_
  split
  · refine .repeating (fun (chars, high) => ?_) _
    refine (Near.byte? (by decide)).bind fun second => (Near.byte? (by decide)).bind fun first => ?_
    split
    · refine (near_advance 2).bind fun _ => near_escapeUnit.bind fun unit => ?_
      split
      · exact .pure _
      · split <;> exact .pure _
    · exact .pure _
  · exact .pure _

theorem near_escape (letter : Char × Nat) : (escape letter).Near .all := by
  refine (near_advance _).bind fun _ => ?_
  split
  · exact near_unicodeEscape
  · split
    · exact .pure _
    · exact .fail _

theorem near_bodyTurn (quote : UInt8) (first : Nat) (p : Partial) :
    (bodyTurn quote first p).Near .all := by
  refine (Near.byte? (by decide)).bind fun b => ?_
  split
  · exact .fail _
  · refine near_cursor.bind fun last => ?_
    have hletter : (escapeLetter quote).Near .all := by
      refine (near_advance 1).bind fun _ => near_charAt?.bind fun letter => ?_
      split
      · exact .fail _
      · exact .pure _
    exact hletter.bind fun letter => (near_bytesOf _).bind fun raw =>
      (near_escape letter).bind fun chars => near_cursor.bind fun _ => .pure _
  · exact near_takeReturn.bind fun _ => .pure _
  · exact near_takeFeed.bind fun _ => .pure _
  · split
    · refine near_cursor.bind fun last => (near_advance 1).bind fun _ => ?_
      split
      · exact (near_bytesOf _).bind fun _ => .pure _
      · exact (near_hold _ _).bind fun _ => .pure _
    · exact (near_advance 1).bind fun _ => .pure _

theorem near_body (quote : UInt8) : (body quote).Near .all :=
  near_cursor.bind fun first => .repeating (near_bodyTurn quote first) _

theorem near_lexeme : lexeme.Near .all := by
  have hbytes : lexemeBytes.Near .all := by
    refine .repeating (fun _ => (Near.byte? (by decide)).bind fun b => ?_) ()
    split
    · exact .pure _
    · split
      · exact (near_advance 1).bind fun _ => .pure _
      · exact .pure _
  refine hbytes.bind fun b => ?_
  split
  · exact .pure _
  · split
    · exact .pure _
    · refine near_blankLength?.bind fun length => ?_
      split
      · exact .pure _
      · refine near_foundAtCursor.bind fun found => ?_
        exact (Near.update _).bind fun _ => .fail _

/-! ## Confined readings -/

/-- Whatever the state is, all questions are in reach on a tape. If the reading succeeds, it ends as
`post` says. -/
structure Confined (x : Reading α) (stream : List UInt8) (reach : Nat) (h : Horizon)
    (post : α → Horizon → Prop) : Prop where
  run : ∀ settings s, ((x.run settings).run.run s).Confined stream reach
    (fun r h' => ∀ a, r.1 = .ok a → post a h') h

namespace Confined

theorem mono {x : Reading α} (hx : x.Confined stream reach h post)
    (hpost : ∀ a h', post a h' → post' a h') : x.Confined stream reach h post' :=
  ⟨fun settings s => (hx.run settings s).mono fun _ h' hr a ha => hpost a h' (hr a ha)⟩

theorem bind {x : Reading β} {f : β → Reading α} {mid : β → Horizon → Prop}
    (hx : x.Confined stream reach h mid)
    (hf : ∀ b h', mid b h' → (f b).Confined stream reach h' post) :
    (x >>= f).Confined stream reach h post := by
  refine ⟨fun settings s => ?_⟩
  rw [run_bind]
  refine (hx.run settings s).bind ?_
  rintro ⟨e | b, s'⟩ h' hr
  · rintro a ⟨⟩
  · exact (hf b h' (hr b rfl)).run settings s'

theorem pure {a : α} (hpost : post a h) : (Pure.pure a : Reading α).Confined stream reach h post := by
  refine ⟨fun settings s => ?_⟩
  rintro _ ⟨⟩
  exact hpost

theorem map {x : Reading β} {f : β → α} (hx : x.Confined stream reach h fun b => post (f b)) :
    (f <$> x).Confined stream reach h post := by
  rw [← bind_pure_comp]
  exact hx.bind fun b h' hb => pure hb

theorem ask {q : Query} {post : q.Answer → Horizon → Prop} (hq : q.InReach reach h)
    (hpost : post (tape stream q h.pos).1 (h.after stream q)) :
    (Reading.ask q).Confined stream reach h post := by
  refine ⟨fun settings s => ⟨hq, ?_⟩⟩
  rintro _ ⟨⟩
  exact hpost

theorem fail (kind : ErrorKind) : (Reading.fail kind : Reading α).Confined stream reach h post := by
  refine ⟨fun settings s => ⟨trivial, ?_⟩⟩
  rintro _ ⟨⟩

theorem throw (e : ReadError) : (MonadExcept.throw e : Reading α).Confined stream reach h post := by
  refine ⟨fun settings s => ?_⟩
  rintro _ ⟨⟩

theorem modify {f : State → State} {post : Unit → Horizon → Prop} (hpost : post () h) :
    (MonadState.modifyGet fun s => ((), f s) : Reading Unit).Confined stream reach h post := by
  refine ⟨fun settings s => ?_⟩
  rintro _ ⟨⟩
  exact hpost

theorem update {f : Settings → State → State} {post : Unit → Horizon → Prop} (hpost : post () h) :
    (Reading.update f).Confined stream reach h post := by
  refine ⟨fun settings s => ?_⟩
  rintro _ ⟨⟩
  exact hpost

theorem get_bind {f : State → Reading α} (hf : ∀ s, (f s).Confined stream reach h post) :
    (get >>= f).Confined stream reach h post :=
  ⟨fun settings s => (hf s).run settings s⟩

theorem read_bind {f : Settings → Reading α}
    (hf : ∀ settings, (f settings).Confined stream reach h post) :
    (read >>= f).Confined stream reach h post :=
  ⟨fun settings s => (hf settings).run settings s⟩

theorem byte? {ahead : Nat} {post : Option UInt8 → Horizon → Prop}
    (hq : (Query.byte ahead retain).InReach reach h)
    (hpost : post stream[h.pos + ahead]? (h.after stream (.byte ahead retain))) :
    (Reading.byte? ahead retain).Confined stream reach h post := by
  have hask : (Reading.ask (.byte ahead retain)).Confined stream reach h fun answer h' =>
      answer = .ok stream[h.pos + ahead]? ∧ h' = h.after stream (.byte ahead retain) :=
    ask hq ⟨rfl, rfl⟩
  refine hask.bind ?_
  rintro _ _ ⟨rfl, rfl⟩
  exact pure hpost

/-- What a turn must leave: the invariant of the repetition, or a result. -/
@[reducible] def Stays (inv : τ → Horizon → Prop) (post : α → Horizon → Prop) :
    Turn τ α → Horizon → Prop
  | .again x, h' => inv x h'
  | .stop a, h' => post a h'

theorem repeating {turn : τ → Reading (Turn τ α)} (inv : τ → Horizon → Prop)
    (hturn : ∀ x h, inv x h → (turn x).Confined stream reach h (Stays inv post)) {x : τ}
    (hx : inv x h) : (Reading.repeating turn x).Confined stream reach h post := by
  have hbudget : (Reading.ask .budget).Confined stream reach h fun _ h' => h' = h :=
    ask trivial rfl
  refine hbudget.bind ?_
  rintro n _ rfl
  refine repeatAtMost_induction (fun x y => ∀ h, inv x h → y.Confined stream reach h post)
    (fun _ _ _ _ => fail _) ?_ (n + 1) x _ hx
  intro x next ih h hx
  refine (hturn x h hx).bind ?_
  rintro (x' | a) h' hr
  · exact ih x' h' hr
  · exact pure hr

end Confined

/-- Where all bytes are kept, a near reading is confined if it ends not far behind where the window
was settled. -/
theorem Near.confined {x : Reading α} (hx : x.Near .all) (post : α → Nat → Prop)
    (hsettled : h.settled = some first)
    (hlands : ∀ settings s, x.Lands settings stream s h.pos fun r _ pos' =>
      pos' ≤ first + longest ∧ ∀ a, r = .ok a → post a pos') :
    x.Confined stream (longest + 8) h fun a h' => post a h'.pos ∧ h'.settled = some first := by
  refine ⟨fun settings s => ?_⟩
  obtain ⟨hend, hpost⟩ := (hlands settings s).run _ _ _ rfl
  refine ((hx.run settings s).confined fun pos hpos => ⟨first, hsettled, by omega⟩).mono ?_
  rintro r h' ⟨hrun, hkept, -⟩ a ha
  rw [hrun] at hpost
  exact ⟨hpost a ha, (hkept rfl).trans hsettled⟩

/-- Where only unread bytes are kept, a near reading is always confined. -/
theorem Near.confined_unread {x : Reading α} {post : α → Nat → Prop} (hx : x.Near .unread)
    (hreach : 8 ≤ reach)
    (hgives : ∀ settings s, x.Gives settings stream s h.pos fun a _ pos' => post a pos') :
    x.Confined stream reach h fun a h' => post a h'.pos ∧ h.seen ≤ h'.seen ∧
      (h.ended = true → h'.ended = true) := by
  refine ⟨fun settings s => ?_⟩
  refine ((hx.run settings s).confined fun pos _ => ⟨pos, rfl, by omega⟩).mono ?_
  rintro ⟨r, s'⟩ h' ⟨hrun, -, hseen, hended⟩ a rfl
  exact ⟨(hgives settings s).run _ _ _ hrun, hseen, hended⟩

end Reading

end JsonPull
