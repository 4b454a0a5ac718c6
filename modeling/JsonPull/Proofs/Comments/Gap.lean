import JsonPull.Proofs.Json.Structure

/-! # What stands between tokens

Between two tokens there may be blanks and comments. A comment is passed, or is a token of its own if
comments are surfaced. Either way the phase and the open containers stay as they are. -/

namespace JsonPull

open JsonPull.Json

variable {settings : Settings} {stream body gap rest : List UInt8} {s : State} {pos : Nat}
  {b : UInt8}

/-- A comment with what follows it. A block comment ends at the first `*/` in its body, and a line
comment before the end of the line. -/
inductive IsComment : List UInt8 → List UInt8 → Prop where
  | block {body rest : List UInt8} (hbody : ¬ [0x2A, 0x2F] <:+: body ++ [0x2A]) :
      IsComment (0x2F :: 0x2A :: (body ++ [0x2A, 0x2F])) rest
  | line {body rest : List UInt8} (hbody : ∀ b ∈ body, b ≠ 0x0D ∧ b ≠ 0x0A)
      (hrest : rest.head? = some 0x0D ∨ rest.head? = some 0x0A) :
      IsComment (0x2F :: 0x2F :: body) rest

/-- A comment of a body with what follows it. A line comment may also end with the input. -/
inductive CommentOf (body : List UInt8) : List UInt8 → List UInt8 → Prop where
  | block (hbody : ¬ [0x2A, 0x2F] <:+: body) (rest : List UInt8) :
      CommentOf body (0x2F :: 0x2A :: (body ++ [0x2A, 0x2F])) rest
  | line {rest : List UInt8} (hbody : ∀ b ∈ body, b ≠ 0x0D ∧ b ≠ 0x0A)
      (hrest : ∀ b ∈ rest.head?, b = 0x0D ∨ b = 0x0A) : CommentOf body (0x2F :: 0x2F :: body) rest

/-- Blanks and comments. -/
inductive Gap : List UInt8 → Prop where
  | nil : Gap []
  | blank {c : Char} {gap : List UInt8} (hblank : Text.isBlank c = true) (h : Gap gap) :
      Gap (Text.encode c ++ gap)
  | comment {comment gap : List UInt8} (hcomment : IsComment comment gap) (h : Gap gap) :
      Gap (comment ++ gap)

theorem IsComment.commentOf {comment : List UInt8} (h : IsComment comment rest) :
    ∃ body, CommentOf body comment rest := by
  cases h with
  | @block body _ hbody =>
      exact ⟨body, .block (fun hends => hbody (hends.trans (List.prefix_append body _).isInfix)) rest⟩
  | @line body _ hbody hrest =>
      refine ⟨body, .line hbody fun b hb => ?_⟩
      rw [Option.mem_def.mp hb] at hrest
      exact hrest.imp Option.some.inj Option.some.inj

/-- A star behind a body does not make an end mark. -/
theorem not_infix_snoc (hbody : ¬ [0x2A, 0x2F] <:+: body) :
    ¬ ([0x2A, 0x2F] : List UInt8) <:+: body ++ [0x2A] := by
  rintro ⟨pre, post, heq⟩
  cases post using List.reverseRecOn with
  | nil =>
      rw [List.append_nil, ← List.singleton_append, ← List.append_assoc] at heq
      cases (List.append_inj' heq rfl).2
  | append_singleton post b =>
      rw [← List.append_assoc] at heq
      exact hbody ⟨pre, post, (List.append_inj' heq rfl).1⟩

theorem IsComment.append {comment : List UInt8} (h : IsComment comment gap) (rest : List UInt8) :
    IsComment comment (gap ++ rest) := by
  cases h with
  | block hbody => exact .block hbody
  | line hbody hgap =>
      have hne : gap ≠ [] := by
        rintro rfl
        rcases hgap with hgap | hgap <;> cases hgap
      refine .line hbody ?_
      rwa [List.head?_append_of_ne_nil _ hne]

/-- Equal in the phase and in the open containers. -/
structure State.Keeps (s s' : State) : Prop where
  phase_eq : s'.phase = s.phase
  frames_eq : s'.frames = s.frames

namespace State.Keeps

variable {s' s'' : State}

theorem refl (s : State) : s.Keeps s := ⟨rfl, rfl⟩

theorem trans (h : s.Keeps s') (h' : s'.Keeps s'') : s.Keeps s'' :=
  ⟨h'.phase_eq.trans h.phase_eq, h'.frames_eq.trans h.frames_eq⟩

theorem of_same (h : s.Same s') : s.Keeps s' := ⟨h.phase_eq, h.frames_eq⟩

end State.Keeps

/-- What a comment leaves. It is the token then if comments are surfaced, and else changes nothing but
the lines. -/
structure State.Commented (surface : Bool) (s s' : State) : Prop where
  keeps : s.Keeps s'
  token_eq : surface = true → s'.token = .comment
  same : surface = false → s.Same s'

/-- What a comment of a body leaves. If comments are surfaced, it is the token then, and its value is
the body without margins. -/
structure State.CommentedBy (surface : Bool) (stream body : List UInt8) (s s' : State) : Prop
    extends State.Commented surface s s' where
  value_eq : surface = true → s'.slot.value? stream =
    some (.string (Text.ofBytes (Text.trimBoth Text.isMarginByte body)))

theorem State.Commented.of_same {surface : Bool} {s₁ s' : State} (hs : s.Same s₁)
    (h : s₁.Commented surface s') : s.Commented surface s' :=
  ⟨(State.Keeps.of_same hs).trans h.keeps, h.token_eq, fun hsurface => hs.trans (h.same hsurface)⟩

theorem Ahead.lt_of_length {bytes bytes' : List UInt8} {pos' : Nat} (h : Ahead stream pos bytes)
    (h' : Ahead stream pos' bytes') (hlt : bytes'.length < bytes.length) : pos < pos' := by
  unfold Ahead at h h'
  rw [← h, ← h', List.length_drop, List.length_drop] at hlt
  omega

theorem IsComment.lt {comment space : List UInt8} {pos' : Nat} (hcomment : IsComment comment rest)
    (h : Ahead stream pos (space ++ (comment ++ rest))) (h' : Ahead stream pos' rest) : pos < pos' := by
  refine h.lt_of_length h' ?_
  cases hcomment <;> simp only [List.length_append, List.length_cons] <;> omega

theorem IsComment.lt_length {comment space : List UInt8} (hcomment : IsComment comment rest)
    (h : Ahead stream pos (space ++ (comment ++ rest))) : pos < stream.length := by
  have hend : Ahead stream stream.length [] := List.drop_length
  refine h.lt_of_length hend ?_
  cases hcomment <;> simp only [List.length_append, List.length_cons, List.length_nil] <;> omega

namespace Reading

/-! ## Bodies of comments -/

theorem succeeds_lineCommentBody (hbody : ∀ b ∈ body, b ≠ 0x0D ∧ b ≠ 0x0A)
    (hrest : ∀ b ∈ rest.head?, b = 0x0D ∨ b = 0x0A) (h : Ahead stream pos (body ++ rest)) :
    lineCommentBody.Succeeds settings stream s pos fun last s' pos' =>
      s' = s ∧ last = pos + body.length ∧ pos' = pos + body.length := by
  induction body generalizing pos with
  | nil =>
      rw [List.nil_append] at h
      apply succeeds_repeating
      rw [succeeds_bind, succeeds_byte?, h.head?]
      cases hhead : rest.head? with
      | none => exact (succeeds_bind _ _).mpr (succeeds_cursor.mpr ((succeeds_pure _).mpr ⟨rfl, rfl, rfl⟩))
      | some b =>
          rcases hrest b hhead with rfl | rfl
          · exact (succeeds_bind _ _).mpr (succeeds_cursor.mpr ((succeeds_pure _).mpr ⟨rfl, rfl, rfl⟩))
          · exact (succeeds_bind _ _).mpr (succeeds_cursor.mpr ((succeeds_pure _).mpr ⟨rfl, rfl, rfl⟩))
  | cons b' body ih =>
      obtain ⟨hreturn, hfeed⟩ := hbody b' (by simp)
      apply succeeds_repeating
      rw [succeeds_bind, succeeds_byte?, h.head?, List.cons_append, List.head?_cons]
      split
      · rename_i heq
        cases heq
      · rename_i heq
        exact absurd (Option.some.inj heq) hreturn
      · rename_i heq
        exact absurd (Option.some.inj heq) hfeed
      · rw [succeeds_bind, succeeds_advance, succeeds_pure, List.length_cons, Nat.add_comm body.length,
          ← Nat.add_assoc]
        exact ⟨Nat.lt_succ_self pos, h.lt, ih (fun b hb => hbody b (by simp [hb])) h.tail⟩

/-- A star in the body of a block comment is not the one that ends it. -/
theorem head?_behind_star {behind : List UInt8}
    (hbody : ¬ [0x2A, 0x2F] <:+: 0x2A :: (body ++ [0x2A])) :
    (body ++ 0x2A :: behind).head? ≠ some 0x2F := by
  intro hhead
  cases body with
  | nil => cases hhead
  | cons b body =>
      obtain rfl : b = 0x2F := by simpa using hhead
      exact hbody ⟨[], body ++ [0x2A], rfl⟩

theorem succeeds_blockCommentBody (hbody : ¬ [0x2A, 0x2F] <:+: body ++ [0x2A])
    (h : Ahead stream pos (body ++ 0x2A :: 0x2F :: rest)) :
    blockCommentBody.Succeeds settings stream s pos fun last s' pos' =>
      s.Same s' ∧ last = pos + body.length ∧ pos' = pos + body.length + 2 := by
  -- A return and a line feed are taken together, so the induction is on the length.
  induction hn : body.length using Nat.strong_induction_on generalizing body s pos with
  | h n ih =>
      subst hn
      apply succeeds_repeating
      rw [succeeds_bind, succeeds_byte?, h.head?]
      cases body with
      | nil =>
          rw [List.nil_append] at h
          change (advance 1 >>= fun _ => _).Succeeds _ _ _ _ _
          have hslash : stream[pos + 1 + 0]? = some 0x2F := h.tail.head?
          rw [succeeds_bind, succeeds_advance, succeeds_bind, succeeds_byte?, hslash,
            if_pos (beq_self_eq_true _), succeeds_bind, succeeds_behind, succeeds_bind,
            succeeds_advance, succeeds_pure]
          exact ⟨.refl s, rfl, rfl⟩
      | cons b body =>
          have htail : ¬ [0x2A, 0x2F] <:+: body ++ [0x2A] := mt List.infix_cons hbody
          have hnext : ∀ s', s.Same s' → blockCommentBody.Succeeds settings stream s' (pos + 1)
              fun last s'' pos'' => s.Same s'' ∧ last = pos + (body.length + 1) ∧
                pos'' = pos + (body.length + 1) + 2 := by
            intro s' hs
            refine (ih body.length (Nat.lt_succ_self _) htail h.tail rfl).mono ?_
            rintro last s'' pos'' ⟨hs', hlast, hpos⟩
            exact ⟨hs.trans hs', by omega, by omega⟩
          rw [List.cons_append, List.head?_cons]
          split
          · rename_i heq
            cases heq
          · rename_i heq
            cases heq
            have hslash : (body ++ 0x2A :: 0x2F :: rest).head? ≠ some 0x2F :=
              head?_behind_star hbody
            rw [succeeds_bind, succeeds_advance, succeeds_bind, succeeds_byte?, h.tail.head?,
              if_neg (by simpa using hslash), succeeds_pure]
            exact ⟨Nat.lt_succ_self pos, h.lt, hnext s (.refl s)⟩
          · rename_i heq
            cases heq
            rw [succeeds_bind]
            refine succeeds_takeReturn h (fun more s' hmore hs => ?_) fun s' hfeed hs => ?_
            · rw [succeeds_pure]
              refine ⟨Nat.lt_add_of_pos_right Nat.two_pos, h.lt, ?_⟩
              cases body with
              | nil => cases hmore
              | cons b' body =>
                  obtain ⟨rfl, rfl⟩ := List.cons.inj hmore
                  have htail' : ¬ [0x2A, 0x2F] <:+: body ++ [0x2A] := mt List.infix_cons htail
                  refine (ih body.length ?_ htail' h.tail.tail rfl).mono ?_
                  · simp only [List.length_cons]
                    omega
                  · rintro last s'' pos'' ⟨hs', hlast, hpos⟩
                    simp only [List.length_cons]
                    exact ⟨hs.trans hs', by omega, by omega⟩
            · rw [succeeds_pure]
              exact ⟨Nat.lt_succ_self pos, h.lt, hnext s' hs⟩
          · rename_i heq
            cases heq
            rw [succeeds_bind, succeeds_takeFeed, succeeds_pure]
            exact ⟨Nat.lt_succ_self pos, h.lt, hnext _ (same_lines s _)⟩
          · rw [succeeds_bind, succeeds_advance, succeeds_pure]
            exact ⟨Nat.lt_succ_self pos, h.lt, hnext s (.refl s)⟩

/-! ## Comments -/

/-- What is left of a list between its margins. -/
theorem trimBoth_split {α : Type} (drop : α → Bool) (xs : List α) :
    ∃ back, xs = xs.takeWhile drop ++ (Text.trimBoth drop xs ++ back) := by
  obtain ⟨front, hfront⟩ := List.dropWhile_suffix (l := (xs.dropWhile drop).reverse) drop
  have hsplit : xs.dropWhile drop = Text.trimBoth drop xs ++ front.reverse := by
    rw [Text.trimBoth, ← List.reverse_append, hfront, List.reverse_reverse]
  exact ⟨front.reverse, by rw [← hsplit, List.takeWhile_append_dropWhile]⟩

/-- Behind its body, a comment is published if comments are surfaced. -/
theorem succeeds_publish_comment {s' : State} (surface : Bool) {first : Nat} (hs : s.Same s')
    (hbody : Ahead stream first (body ++ rest)) :
    (do
      if surface then
        let span : Span := { first, last := first + body.length }
        let trimmed := trimSpan span (← bytesOf span)
        modify (State.publishComment (.held (← hold trimmed.first trimmed.last))) :
      Reading Unit).Succeeds settings stream s' pos fun _ s'' pos' =>
        s.CommentedBy surface stream body s'' ∧ pos' = pos := by
  cases surface with
  | false => exact (succeeds_pure ()).mpr ⟨⟨⟨.of_same hs, nofun, fun _ => hs⟩, nofun⟩, rfl⟩
  | true =>
      rw [if_pos rfl, succeeds_bind, succeeds_bytesOf, Nat.add_sub_cancel_left, hbody.slice,
        succeeds_bind, succeeds_hold, succeeds_modify]
      refine ⟨⟨⟨⟨hs.phase_eq, hs.frames_eq⟩, fun _ => rfl, nofun⟩, fun _ => ?_⟩, rfl⟩
      obtain ⟨back, hsplit⟩ := trimBoth_split Text.isMarginByte body
      rw [hsplit, List.append_assoc, List.append_assoc] at hbody
      have hslice := hbody.skip.slice
      simp only [State.publishComment, Slot.value?, trimSpan, Nat.add_sub_cancel_left, hslice]

/-- A comment is consumed as a whole. -/
theorem succeeds_comment_body {comment : List UInt8} (surface : Bool)
    (hcomment : CommentOf body comment rest) (h : Ahead stream pos (comment ++ rest)) :
    (Reading.comment surface).Succeeds settings stream s pos fun _ s' pos' =>
      s.CommentedBy surface stream body s' ∧ pos' = pos + comment.length := by
  unfold Reading.comment
  cases hcomment with
  | block hbody =>
      rw [List.cons_append, List.cons_append, List.append_assoc] at h
      have hmark : stream[pos + 1 + 0]? = some 0x2A := h.tail.head?
      rw [succeeds_bind, succeeds_advance, succeeds_bind, succeeds_byte?, hmark]
      change (advance 1 >>= fun _ => _).Succeeds _ _ _ _ _
      rw [succeeds_bind, succeeds_advance, succeeds_bind, succeeds_cursor]
      change (blockCommentBody >>= fun _ => _).Succeeds _ _ _ _ _
      rw [succeeds_bind]
      refine (succeeds_blockCommentBody (not_infix_snoc hbody) h.tail.tail).mono ?_
      rintro _ s' _ ⟨hs, rfl, rfl⟩
      refine (succeeds_publish_comment surface hs h.tail.tail).mono ?_
      rintro _ s'' _ ⟨hcommented, rfl⟩
      refine ⟨hcommented, ?_⟩
      simp only [List.length_cons, List.length_append, List.length_nil]
      omega
  | line hbody hrest =>
      rw [List.cons_append, List.cons_append] at h
      have hmark : stream[pos + 1 + 0]? = some 0x2F := h.tail.head?
      rw [succeeds_bind, succeeds_advance, succeeds_bind, succeeds_byte?, hmark]
      change (advance 1 >>= fun _ => _).Succeeds _ _ _ _ _
      rw [succeeds_bind, succeeds_advance, succeeds_bind, succeeds_cursor]
      change (lineCommentBody >>= fun _ => _).Succeeds _ _ _ _ _
      rw [succeeds_bind]
      refine (succeeds_lineCommentBody hbody hrest h.tail.tail).mono ?_
      rintro _ s' _ ⟨rfl, rfl, rfl⟩
      refine (succeeds_publish_comment surface (.refl _) h.tail.tail).mono ?_
      rintro _ s'' _ ⟨hcommented, rfl⟩
      refine ⟨hcommented, ?_⟩
      simp only [List.length_cons]
      omega

theorem succeeds_comment {comment : List UInt8} (surface : Bool) (hcomment : IsComment comment rest)
    (h : Ahead stream pos (comment ++ rest)) :
    (Reading.comment surface).Succeeds settings stream s pos fun _ s' pos' =>
      s.Commented surface s' ∧ Ahead stream pos' rest := by
  obtain ⟨body, hbody⟩ := hcomment.commentOf
  refine (succeeds_comment_body surface hbody h).mono ?_
  rintro _ s' _ ⟨hcommented, rfl⟩
  exact ⟨hcommented.toCommented, h.skip⟩

/-! ## Tokens behind a comment -/

/-- A repetition that passes a comment is left at it, if comments are surfaced, and else goes on behind
it. -/
theorem skipping_comment {comment space : List UInt8} {f : Option UInt8 → Reading (Turn Unit Bool)}
    {surface : Bool} (hspace : IsSpace space) (hcomment : IsComment comment rest)
    (h : Ahead stream pos (space ++ (comment ++ rest)))
    (hf : ∀ s' pos' (post : Turn Unit Bool → State → Nat → Prop),
      (passComment surface).Succeeds settings stream s' pos' post →
      (f (some 0x2F)).Succeeds settings stream s' pos' post) :
    ∃ s' pos', s.Commented surface s' ∧ Ahead stream pos' rest ∧
      ∀ post : Bool → State → Nat → Prop,
        (if surface then post true s' pos'
          else (repeating (fun _ : Unit => skipBlanks >>= f) ()).Succeeds settings stream s' pos'
            post) →
        (repeating (fun _ : Unit => skipBlanks >>= f) ()).Succeeds settings stream s pos post := by
  obtain ⟨more, rfl⟩ : ∃ more, comment = 0x2F :: more := by
    cases hcomment <;> exact ⟨_, rfl⟩
  have hblanks : skipBlanks.Succeeds settings stream s pos fun b? s' pos' =>
      b? = some 0x2F ∧ s.Same s' ∧ Ahead stream pos' (0x2F :: more ++ rest) :=
    succeeds_skipBlanks_space hspace (isSolid_cons (by decide) _) h fun _ _ hs ha => ⟨rfl, hs, ha⟩
  obtain ⟨_, s₁, pos₁, ⟨rfl, hs, ha⟩, hskip⟩ := hblanks.exact
  have hread : (Reading.comment surface).Succeeds settings stream s₁ pos₁ _ :=
    succeeds_comment surface hcomment ha
  obtain ⟨_, s', pos', ⟨hcommented, hahead⟩, hexact⟩ := hread.exact
  refine ⟨s', pos', hcommented.of_same hs, hahead, fun post hpost => ?_⟩
  apply succeeds_repeating
  rw [succeeds_bind, hskip]
  apply hf
  unfold passComment
  rw [succeeds_bind, hexact, succeeds_pure]
  cases surface with
  | true => exact hpost
  | false => exact ⟨hcomment.lt h hahead, hcomment.lt_length h, hpost⟩

variable {comment space : List UInt8}

theorem value_comment (settings : Settings) (s : State) (hspace : IsSpace space)
    (hcomment : IsComment comment rest) (h : Ahead stream pos (space ++ (comment ++ rest))) :
    ∃ s' pos', s.Commented settings.surfaceComments s' ∧ Ahead stream pos' rest ∧
      ∀ post : Bool → State → Nat → Prop,
        (if settings.surfaceComments then post true s' pos'
          else value.Succeeds settings stream s' pos' post) →
        value.Succeeds settings stream s pos post := by
  have hlead : Lead.ofByte 0x2F = .slash := rfl
  refine skipping_comment hspace hcomment h fun s' pos' post hpass => ?_
  dsimp only
  rw [hlead, succeeds_bind, succeeds_read]
  exact hpass

theorem separator_comment (settings : Settings) (s : State) (surface : Bool)
    (hspace : IsSpace space) (hcomment : IsComment comment rest)
    (h : Ahead stream pos (space ++ (comment ++ rest))) :
    ∃ s' pos', s.Commented surface s' ∧ Ahead stream pos' rest ∧
      ∀ post : Bool → State → Nat → Prop,
        (if surface then post true s' pos'
          else (separator surface).Succeeds settings stream s' pos' post) →
        (separator surface).Succeeds settings stream s pos post := by
  unfold separator
  exact skipping_comment hspace hcomment h fun s' pos' post hpass => hpass

theorem succeeds_token_value_due (hphase : s.phase.expectsValue = true)
    {post : Bool → State → Nat → Prop} :
    token.Succeeds settings stream s pos post ↔ value.Succeeds settings stream s pos post := by
  have hne : s.phase ≠ .postValue := by
    intro hpost
    rw [hpost] at hphase
    cases hphase
  rw [succeeds_token hne, succeeds_part_value hphase]

/-- Where a value or a separator is due, a comment is a token if comments are surfaced, and else the
next token is that behind it. -/
theorem token_comment (settings : Settings) (hphase : s.phase = .postValue ∨ s.phase.expectsValue = true)
    (hspace : IsSpace space) (hcomment : IsComment comment rest)
    (h : Ahead stream pos (space ++ (comment ++ rest))) :
    ∃ s' pos', s.Commented settings.surfaceComments s' ∧ Ahead stream pos' rest ∧
      ∀ post : Bool → State → Nat → Prop,
        (if settings.surfaceComments then post true s' pos'
          else token.Succeeds settings stream s' pos' post) →
        token.Succeeds settings stream s pos post := by
  rcases hphase with hphase | hphase
  · obtain ⟨s', pos', hcommented, hahead, hleads⟩ :=
      separator_comment settings s settings.surfaceComments hspace hcomment h
    have hphase' : s'.phase = .postValue := hcommented.keeps.phase_eq.trans hphase
    refine ⟨s', pos', hcommented, hahead, fun post hpost => ?_⟩
    rw [succeeds_token_separated hphase]
    apply hleads
    rw [succeeds_token_separated hphase'] at hpost
    split at hpost
    · rename_i hsurface
      rw [if_pos hsurface]
      exact hpost
    · rename_i hsurface
      rw [if_neg hsurface]
      exact hpost
  · obtain ⟨s', pos', hcommented, hahead, hleads⟩ :=
      value_comment settings s hspace hcomment h
    have hphase' : s'.phase.expectsValue = true := hcommented.keeps.phase_eq ▸ hphase
    refine ⟨s', pos', hcommented, hahead, fun post hpost => ?_⟩
    rw [succeeds_token_value_due hphase]
    apply hleads
    rwa [succeeds_token_value_due hphase'] at hpost

end Reading

end JsonPull
