import JsonPull.Proofs.Comments.Gap
import JsonPull.Proofs.Text.Margin
import JsonPull.Proofs.Tokenizer.End
import JsonPull.Proofs.Value.Call

/-! # Comments as tokens

A comment ends at the first end mark in its body or at the end of its line. If comments are surfaced, it
is a token of its own, whose value is its body without margins. -/

namespace JsonPull

open JsonPull.Json

variable {settings : Settings} {stream before body comment space more rest : List UInt8} {s : State}
  {pos : Nat} {phase : Phase}

/-- What a reader passes before a comment, and the phase that it is in at the comment: blanks, and
behind a value perhaps its comma. -/
inductive Passes (settings : Settings) (s : State) : List UInt8 → Phase → Prop where
  | blanks {space : List UInt8} (hspace : IsSpace space) : Passes settings s space s.phase
  | comma {space space' : List UInt8} (hphase : s.phase = .postValue) (hspace : IsSpace space)
      (hspace' : IsSpace space') :
      Passes settings s (space ++ 0x2C :: space') (s.resumeContainer settings).phase

/-- The text of a comment: its body, decoded and without margins. -/
def commentText (body : List UInt8) : String :=
  String.ofList (Text.trimBoth Text.isMargin (Text.decodeLossy body))

/-- What a reader has passed is as long as the way that it made. -/
theorem Ahead.pos_eq {b : UInt8} {pos' : Nat} (h : Ahead stream pos (before ++ b :: rest))
    (h' : Ahead stream pos' (b :: rest)) : pos' = pos + before.length := by
  have hlt := h'.lt
  have hlt' := h.skip.lt
  have hlength := congrArg List.length (Eq.trans h' h.skip.symm)
  rw [List.length_drop, List.length_drop] at hlength
  omega

namespace Reading

/-! ## Comments without an end -/

/-- A comment that goes on up to the end of the stream. -/
@[reducible] def Unended {α : Type} (r : Except ReadError α) : Prop :=
  ∃ e, r = .error e ∧ e.kind = .unexpectedEnd .comment

theorem lands_blockCommentBody_unended (hbody : ¬ [0x2A, 0x2F] <:+: body)
    (h : Ahead stream pos body) :
    blockCommentBody.Lands settings stream s pos fun r _ _ => Unended r := by
  refine lands_repeating_inv
    (fun _ _ pos => ∃ body, ¬ [0x2A, 0x2F] <:+: body ∧ Ahead stream pos body) ?_ ⟨body, hbody, h⟩
  rintro ⟨⟩ s pos ⟨body, hbody, h⟩
  refine (lands_bind_iff fun _ => succeeds_byte? 0 .all).mpr ?_
  rw [h.head?]
  cases body with
  | nil =>
      exact lands_fail _ fun e he => ⟨e, rfl, he⟩
  | cons b body =>
      have htail : ¬ [0x2A, 0x2F] <:+: body := mt List.infix_cons hbody
      have hagain : ∀ {pos' : Nat} {body' : List UInt8}, pos < pos' →
          ¬ [0x2A, 0x2F] <:+: body' → Ahead stream pos' body' → pos < pos' ∧ pos < stream.length ∧
            ∃ body, ¬ [0x2A, 0x2F] <:+: body ∧ Ahead stream pos' body :=
        fun hlt hbody' hahead => ⟨hlt, h.lt, _, hbody', hahead⟩
      refine Succeeds.lands ?_
      rw [List.head?_cons]
      split
      · rename_i heq
        cases heq
      · rename_i heq
        cases heq
        have hslash : body.head? ≠ some 0x2F := by
          intro hhead
          obtain ⟨more, rfl⟩ := List.head?_eq_some_iff.mp hhead
          exact hbody ⟨[], more, rfl⟩
        rw [succeeds_bind, succeeds_advance, succeeds_bind, succeeds_byte?, h.tail.head?,
          if_neg (by simpa using hslash), succeeds_pure]
        exact hagain (Nat.lt_succ_self pos) htail h.tail
      · rename_i heq
        cases heq
        rw [succeeds_bind]
        refine succeeds_takeReturn h (fun more s' hmore _ => ?_) fun s' _ _ => ?_
        · subst hmore
          rw [succeeds_pure]
          exact hagain (Nat.lt_add_of_pos_right Nat.two_pos) (mt List.infix_cons htail) h.tail.tail
        · rw [succeeds_pure]
          exact hagain (Nat.lt_succ_self pos) htail h.tail
      · rename_i heq
        cases heq
        rw [succeeds_bind, succeeds_takeFeed, succeeds_pure]
        exact hagain (Nat.lt_succ_self pos) htail h.tail
      · rw [succeeds_bind, succeeds_advance, succeeds_pure]
        exact hagain (Nat.lt_succ_self pos) htail h.tail

theorem lands_comment_unended (surface : Bool) (hbody : ¬ [0x2A, 0x2F] <:+: body)
    (h : Ahead stream pos (0x2F :: 0x2A :: body)) :
    (Reading.comment surface).Lands settings stream s pos fun r _ _ => Unended r := by
  have hmark : stream[pos + 1 + 0]? = some 0x2A := h.tail.head?
  unfold Reading.comment
  rw [lands_bind_iff fun _ => succeeds_advance 1, lands_bind_iff fun _ => succeeds_byte? 0 .unread,
    hmark]
  change (advance 1 >>= fun _ => _).Lands _ _ _ _ _
  rw [lands_bind_iff fun _ => succeeds_advance 1, lands_bind_iff fun _ => succeeds_cursor]
  change (blockCommentBody >>= fun _ => _).Lands _ _ _ _ _
  refine (lands_blockCommentBody_unended hbody h.tail.tail).bind ?_ ?_
  · rintro e s' pos' ⟨_, ⟨⟩, he⟩
    exact ⟨e, rfl, he⟩
  · rintro last s' pos' ⟨_, ⟨⟩, -⟩

/-! ## The way to a comment -/

variable {last : Except ReadError Bool → State → Nat → Prop}

theorem lands_passComment
    (h : (Reading.comment true).Lands settings stream s pos fun r => last (r.map fun _ => true)) :
    (passComment true).Lands settings stream s pos (Stopped last) := by
  unfold passComment
  rw [if_pos rfl]
  exact h.stopped true

theorem solid_slash : Solid 0x2F := ⟨by decide, rfl⟩

theorem lands_separator_surfaced (hspace : IsSpace space) (h : Ahead stream pos (space ++ 0x2F :: more))
    (hcomment : ∀ s' pos', s.Same s' → Ahead stream pos' (0x2F :: more) →
      (Reading.comment true).Lands settings stream s' pos' fun r => last (r.map fun _ => true)) :
    (separator true).Lands settings stream s pos last :=
  lands_skipping hspace solid_slash h fun s' pos' hs ha => lands_passComment (hcomment s' pos' hs ha)

/-- Where no separator is due, every part passes blanks first and then looks for a comment. -/
theorem lands_part_surfaced (hsurface : settings.surfaceComments = true)
    (hphase : s.phase ≠ .postValue ∧ s.phase ≠ .closed) (hspace : IsSpace space)
    (h : Ahead stream pos (space ++ 0x2F :: more))
    (hcomment : ∀ s' pos', s.Same s' → Ahead stream pos' (0x2F :: more) →
      (Reading.comment true).Lands settings stream s' pos' fun r => last (r.map fun _ => true)) :
    part.Lands settings stream s pos last := by
  have hpassed : ∀ s' pos', s.Same s' → Ahead stream pos' (0x2F :: more) →
      (do passComment (← read).surfaceComments : Reading (Turn Unit Bool)).Lands settings stream s'
        pos' (Stopped last) := by
    intro s' pos' hs ha
    rw [lands_bind_iff fun _ => succeeds_read, hsurface]
    exact lands_passComment (hcomment s' pos' hs ha)
  have hvalue : value.Lands settings stream s pos last :=
    lands_skipping hspace solid_slash h hpassed
  have hmember : member.Lands settings stream s pos last :=
    lands_skipping hspace solid_slash h hpassed
  have hepilogue : (epilogue true).Lands settings stream s pos last :=
    lands_skipping hspace solid_slash h fun s' pos' hs ha => lands_passComment (hcomment s' pos' hs ha)
  unfold part
  rw [lands_bind_iff fun _ => succeeds_get]
  cases hp : s.phase with
  | start | property => exact hvalue
  | opened c | within c =>
      cases c with
      | object => exact hmember
      | array | constructor => exact hvalue
  | finished =>
      dsimp only
      rw [lands_bind_iff fun _ => succeeds_read, hsurface]
      exact hepilogue
  | postValue => exact absurd hp hphase.1
  | closed => exact absurd hp hphase.2

/-- Blanks, and behind a value perhaps its comma, are passed before a comment. -/
theorem lands_token_surfaced (hsurface : settings.surfaceComments = true) (hopen : s.phase ≠ .closed)
    (hpasses : Passes settings s before phase) (h : Ahead stream pos (before ++ 0x2F :: more))
    (hcomment : ∀ s' pos', s'.phase = phase → s'.frames = s.frames → Ahead stream pos' (0x2F :: more) →
      (Reading.comment true).Lands settings stream s' pos' fun r => last (r.map fun _ => true)) :
    token.Lands settings stream s pos last := by
  unfold token
  rw [lands_bind_iff fun _ => succeeds_get]
  cases hpasses with
  | blanks hspace =>
      have hsame : ∀ s' pos', s.Same s' → Ahead stream pos' (0x2F :: more) →
          (Reading.comment true).Lands settings stream s' pos' fun r => last (r.map fun _ => true) :=
        fun s' pos' hs ha => hcomment s' pos' hs.phase_eq hs.frames_eq ha
      split
      · rw [lands_bind_iff fun _ => succeeds_read, hsurface]
        have hseparator : (separator true).Lands settings stream s pos fun r s' pos' =>
            (∃ u : Except ReadError Unit, r = u.map fun _ => true) ∧ last r s' pos' :=
          lands_separator_surfaced hspace h fun s' pos' hs ha =>
            (hsame s' pos' hs ha).mono fun u _ _ hlast => ⟨⟨u, rfl⟩, hlast⟩
        refine hseparator.bind (fun e s' pos' hlast => hlast.2) ?_
        rintro found s' pos' ⟨⟨u, hu⟩, hlast⟩
        obtain rfl : found = true := by
          cases u with
          | error e => cases hu
          | ok u => exact Except.ok.inj hu
        exact Succeeds.lands ((succeeds_pure _).mpr hlast)
      · rename_i hphase
        exact lands_part_surfaced hsurface ⟨hphase, hopen⟩ hspace h hsame
  | comma hphase hspace hspace' =>
      rw [if_pos hphase, lands_bind_iff fun _ => succeeds_read]
      rw [List.append_assoc, List.cons_append] at h
      refine (succeeds_separator_comma _ hphase hspace h).lands_bind ?_
      rintro _ s' pos' ⟨rfl, harrives, ha⟩
      have hp : s'.phase = (s.resumeContainer settings).phase := by
        rw [harrives.phase_eq, State.nextPhase, if_pos hphase]
      have hdue : s'.phase ≠ .postValue ∧ s'.phase ≠ .closed := by
        rw [hp]
        exact ⟨State.phase_resumeContainer settings s, State.resumeContainer_ne_closed settings s⟩
      refine lands_part_surfaced hsurface hdue hspace' ha fun s'' pos'' hs ha' => ?_
      exact hcomment s'' pos'' (hs.phase_eq.trans hp) (hs.frames_eq.trans harrives.frames_eq) ha'

end Reading

namespace Tokenizer

variable {t : Tokenizer}

/-- A read finds a comment of this text. It leaves the open containers as they are, this phase, and the
cursor there. -/
structure ReadsComment (t : Tokenizer) (text : String) (phase : Phase) (cursor : Nat) : Prop where
  result_eq : (t.call .read).1 = .ok (.found true)
  token_eq : (t.call .read).2.token = .comment
  value_eq : (t.call .read).2.value? = some (.string text)
  phase_eq : (t.call .read).2.phase = phase
  frames_eq : (t.call .read).2.state.frames = t.state.frames
  cursor_eq : (t.call .read).2.feed.window.cursor = cursor

/-- A read at a comment ends as the reading of the comment does. -/
theorem Sound.call_comment (h : t.Sound stream) (hsurface : t.options.surfaceComments = true)
    (hopen : t.phase ≠ .closed) (hpasses : Passes t.options.settings t.state before phase)
    (hahead : Ahead stream t.feed.window.cursor (before ++ 0x2F :: more))
    {last : Except ReadError Unit → State → Nat → Prop}
    (hcomment : ∀ s' pos', s'.phase = phase → s'.frames = t.state.frames →
      Ahead stream pos' (0x2F :: more) →
      (Reading.comment true).Lands t.options.settings stream s' pos' last) :
    ∃ u, last u (t.call .read).2.state (t.call .read).2.feed.window.cursor ∧
      (t.call .read).1 = u.map (fun _ => .found true) ∧
      (t.call .read).2.value? = (t.call .read).2.state.slot.value? stream := by
  refine call_of_program (h.call .read).1 (h.call .read).2.view ?_
  refine Reading.lands_modify_bind.mpr ?_
  have hpasses' : Passes t.options.settings t.state.clearSlot before phase := by
    cases hpasses with
    | blanks hspace => exact .blanks hspace
    | comma hphase hspace hspace' => exact .comma hphase hspace hspace'
  refine Reading.lands_token_surfaced hsurface hopen hpasses' hahead fun s' pos' hp hf ha => ?_
  exact (hcomment s' pos' hp hf ha).mono fun r _ _ hlast => ⟨r, hlast, rfl⟩

theorem Sound.reads_comment (h : t.Sound stream) (hsurface : t.options.surfaceComments = true)
    (hopen : t.phase ≠ .closed) (hpasses : Passes t.options.settings t.state before phase)
    (hcomment : CommentOf body comment rest)
    (hahead : Ahead stream t.feed.window.cursor (before ++ (comment ++ rest))) :
    t.ReadsComment (commentText body) phase
      (t.feed.window.cursor + before.length + comment.length) := by
  obtain ⟨more, rfl⟩ : ∃ more, comment = 0x2F :: more := by
    cases hcomment <;> exact ⟨_, rfl⟩
  have hlands : ∀ s' pos', s'.phase = phase → s'.frames = t.state.frames →
      Ahead stream pos' (0x2F :: more ++ rest) →
      (Reading.comment true).Lands t.options.settings stream s' pos' fun r s'' pos'' => r = .ok () ∧
        s''.phase = phase ∧ s''.frames = t.state.frames ∧
          (∃ s₁ : State, s₁.CommentedBy true stream body s'') ∧
            pos'' = t.feed.window.cursor + before.length + (0x2F :: more).length := by
    intro s' pos' hp hf ha
    rw [← hahead.pos_eq ha]
    refine ((Reading.succeeds_comment_body true hcomment ha).mono ?_).lands
    rintro _ s'' pos'' ⟨hs, hpos⟩
    exact ⟨rfl, hs.keeps.phase_eq.trans hp, hs.keeps.frames_eq.trans hf, ⟨s', hs⟩, hpos⟩
  obtain ⟨u, ⟨rfl, hp, hf, ⟨s, hs⟩, hcursor⟩, hresult, hvalue⟩ :=
    h.call_comment hsurface hopen hpasses hahead hlands
  refine ⟨hresult, hs.token_eq rfl, ?_, hp, hf, hcursor⟩
  rw [hvalue, hs.value_eq rfl, Text.ofBytes, Text.decodeLossy_trimBoth]
  rfl

theorem Sound.fails_comment (h : t.Sound stream) (hsurface : t.options.surfaceComments = true)
    (hopen : t.phase ≠ .closed) (hpasses : Passes t.options.settings t.state before phase)
    (hbody : ¬ [0x2A, 0x2F] <:+: body)
    (hahead : Ahead stream t.feed.window.cursor (before ++ 0x2F :: 0x2A :: body)) :
    ∃ e, (t.call .read).1 = .error e ∧ e.kind = .unexpectedEnd .comment := by
  obtain ⟨u, ⟨e, rfl, he⟩, hresult, -⟩ := h.call_comment hsurface hopen hpasses hahead
    fun s' pos' _ _ ha => Reading.lands_comment_unended true hbody ha
  exact ⟨e, hresult, he⟩

theorem afterAll_phase_ne_closed (h : t.phase ≠ .closed) (calls : List Call) :
    (t.afterAll (calls.map .call)).phase ≠ .closed := by
  induction calls generalizing t with
  | nil => exact h
  | cons c calls ih => exact ih (call_phase_ne_closed c h)

/-- Where comments are surfaced, a comment is one token, however the source splits its bytes and whatever
was read before. It ends at the first end mark in its body, or at the end of its line; its value is the
body without margins, and it changes neither the phase nor the open containers. A comment in marks that
does not end fails. -/
theorem comments_end (options : Options) (hsurface : options.surfaceComments = true)
    {source : Source} (hsteady : source.Steady) (pool : Pool) (heeds : Bool) (calls : List Call)
    {t : Tokenizer} (ht : (ofSource options source pool heeds).afterAll (calls.map .call) = t)
    {before text : List UInt8} {phase : Phase}
    (hpasses : Passes options.settings t.state before phase)
    (hahead : Ahead source.bytes t.feed.window.cursor (before ++ text)) :
    (∀ body comment rest, CommentOf body comment rest → text = comment ++ rest →
      t.ReadsComment (commentText body) phase
        (t.feed.window.cursor + before.length + comment.length)) ∧
    ∀ body, ¬ [0x2A, 0x2F] <:+: body → text = 0x2F :: 0x2A :: body →
      ∃ e, (t.call .read).1 = .error e ∧ e.kind = .unexpectedEnd .comment := by
  have hsound : t.Sound source.bytes :=
    ht ▸ (sound_ofSource options hsteady pool heeds).afterAll calls
  have hoptions : t.options = options := ht ▸ options_afterAll _ calls
  have hopen : t.phase ≠ .closed := ht ▸ afterAll_phase_ne_closed Phase.noConfusion calls
  rw [← hoptions] at hsurface hpasses
  refine ⟨?_, ?_⟩
  · rintro body comment rest hcomment rfl
    exact hsound.reads_comment hsurface hopen hpasses hcomment hahead
  · rintro body hbody rfl
    exact hsound.fails_comment hsurface hopen hpasses hbody hahead

/-- In an array, behind `1,`: a comment of a star, a line break and another star, which comes in small
parts. -/
theorem comments_end_stars :
    let options : Options := { initialCapacity := 1, surfaceComments := true }
    let source : Source :=
      { script := [.bytes ⟨#[0x5B, 0x31, 0x2C, 0x2F, 0x2A, 0x20, 0x2A]⟩ 0, .pending,
          .bytes ⟨#[0x0D, 0x0A, 0x2A, 0x2A, 0x2F, 0x32]⟩ 0],
        limit := some 2 }
    let t := (ofSource options source {} false).afterAll ([.read, .read].map .call)
    t.phase = .postValue ∧ t.ReadsComment "*\r\n*" (.within .array) 12 := by
  intro options source t
  have hsteady : source.Steady := by decide
  have hphase : t.phase = .postValue := by decide +kernel
  have hbody : ¬ ([0x2A, 0x2F] : List UInt8) <:+: [0x20, 0x2A, 0x0D, 0x0A, 0x2A] := by decide
  have hpasses : Passes options.settings t.state ([] ++ 0x2C :: []) _ := .comma hphase .nil .nil
  have hahead : source.bytes.drop t.feed.window.cursor = ([] ++ 0x2C :: []) ++
      (0x2F :: 0x2A :: ([0x20, 0x2A, 0x0D, 0x0A, 0x2A] ++ [0x2A, 0x2F]) ++ [0x32]) := by
    decide +kernel
  have hreads := (comments_end options rfl hsteady {} false [.read, .read] (t := t) rfl hpasses
    hahead).1 _ _ _ (.block hbody _) rfl
  have hnext : (t.state.resumeContainer options.settings).phase = .within .array := by decide +kernel
  have htext : commentText [0x20, 0x2A, 0x0D, 0x0A, 0x2A] = "*\r\n*" := by decide
  have hcursor : t.feed.window.cursor = 2 := by decide +kernel
  rw [hnext, htext, hcursor] at hreads
  exact ⟨hphase, hreads⟩

end Tokenizer

end JsonPull
