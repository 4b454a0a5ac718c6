import JsonPull.Proofs.Reading.Onward
import JsonPull.Reader.Layout

/-! # What stands between tokens

Blanks and line breaks only move the cursor. A comment does so too, unless it is surfaced, and then
the published span lies within what is held. -/

namespace JsonPull.Reading

variable {total : Nat} {retain : Retain} {settings : Settings} {s : State} {d : Reach total}

/-! ## Blanks and line breaks -/

theorem proceeds_startLine :
    startLine.Proceeds retain settings s d fun _ _ d' => d'.pos = d.pos := by
  apply (proceeds_cursor _).bind
  rintro _ s' d' - ⟨rfl, rfl, hpos, -⟩
  exact ⟨(ensures_modify _).mpr ⟨⟨rfl, le_rfl, le_rfl, fun _ _ => id, fun _ _ => id⟩, hpos⟩⟩

theorem proceeds_takeReturn (h : d.pos < d.seen) :
    (takeReturn retain).Proceeds retain settings s d fun _ _ d' => d.pos < d'.pos := by
  refine (proceeds_advance _ h).bind fun _ s₁ d₁ _ h₁ => ?_
  refine (proceeds_byte? 0).bind fun b s₂ d₂ _ h₂ => ?_
  dsimp only
  split
  · rename_i hb
    have hseen := h₂.2 0x0A (by simpa using hb)
    refine (proceeds_advance _ (by omega)).bind fun _ s₃ d₃ _ h₃ => ?_
    apply proceeds_startLine.bind
    exact fun _ s₄ d₄ _ h₄ => .pure (by omega)
  · apply proceeds_startLine.bind
    exact fun _ s₃ d₃ _ h₃ => .pure (by omega)

theorem proceeds_takeFeed (h : d.pos < d.seen) :
    takeFeed.Proceeds retain settings s d fun _ _ d' => d.pos < d'.pos := by
  refine (proceeds_advance _ h).bind fun _ s₁ d₁ _ h₁ => ?_
  apply proceeds_startLine.mono
  intro _ s₂ d₂ _ h₂
  omega

theorem proceeds_blankLength? :
    (blankLength? retain).Proceeds retain settings s d
      fun r _ d' => d'.pos = d.pos ∧ ∀ n, r = some n → 0 < n ∧ d.pos + n ≤ d'.seen := by
  refine (proceeds_byte? 0).bind fun b s₁ d₁ _ h₁ => ?_
  cases b with
  | none => exact .pure ⟨h₁.1, nofun⟩
  | some b =>
      have hb := h₁.2 b rfl
      dsimp only
      split
      · refine .pure ⟨h₁.1, ?_⟩
        intro n hn
        split at hn
        · cases hn
          omega
        · cases hn
      · refine (proceeds_charAt? 0).bind fun r s₂ d₂ _ h₂ => ?_
        have hpos : d₂.pos = d.pos := h₂.1.trans h₁.1
        cases r with
        | none => exact .pure ⟨hpos, nofun⟩
        | some r =>
            obtain ⟨c, length⟩ := r
            have hc := h₂.2 c length rfl
            refine .pure ⟨hpos, ?_⟩
            intro n hn
            split at hn
            · cases hn
              omega
            · cases hn

/-- The byte that is answered was fetched. -/
theorem proceeds_skipBlanks :
    skipBlanks.Proceeds .unread settings s d fun b _ d' => ∀ x, b = some x → d'.pos < d'.seen := by
  refine .repeating (fun _ _ _ => True) ?_ trivial
  intro _ s d _
  refine (proceeds_byte? 0).bind fun b s₁ d₁ _ h₁ => ?_
  split
  · exact .pure nofun
  · have hb := h₁.2 _ rfl
    refine (proceeds_takeReturn (by omega)).bind fun _ s₂ d₂ _ h₂ => ?_
    exact .pure ⟨trivial, by omega⟩
  · have hb := h₁.2 _ rfl
    refine (proceeds_takeFeed (by omega)).bind fun _ s₂ d₂ _ h₂ => ?_
    exact .pure ⟨trivial, by omega⟩
  · rename_i b _ _
    have hb := h₁.2 b rfl
    refine proceeds_blankLength?.bind fun r s₂ d₂ h₂ hr => ?_
    cases r with
    | none =>
        refine .pure fun x _ => ?_
        have hseen := h₂.seen_le
        omega
    | some length =>
        have hlength := hr.2 length rfl
        refine (proceeds_advance _ (by omega)).bind fun _ s₃ d₃ _ h₃ => ?_
        exact .pure ⟨trivial, by omega⟩

/-! ## Comments -/

theorem proceeds_lineCommentBody :
    lineCommentBody.Proceeds .all settings s d fun last _ d' => d.pos ≤ last ∧ last ≤ d'.pos := by
  refine .repeating (fun _ _ d' => d.pos ≤ d'.pos) ?_ le_rfl
  intro _ s' d' hle
  refine (proceeds_byte? 0).bind fun b s₁ d₁ _ h₁ => ?_
  have hstop : (do return Turn.stop (← cursor) : Reading (Turn Unit Nat)).Proceeds .all settings s₁ d₁
      (Turn.Leaves (fun _ _ d₂ => d.pos ≤ d₂.pos) d'
        fun last _ d₂ => d.pos ≤ last ∧ last ≤ d₂.pos) := by
    apply (proceeds_cursor _).bind
    rintro _ s₂ d₂ - ⟨rfl, rfl, hpos, -⟩
    exact .pure ⟨by omega, hpos.ge⟩
  split
  · exact hstop
  · exact hstop
  · exact hstop
  · have hb := h₁.2 _ rfl
    refine (proceeds_advance _ (by omega)).bind fun _ s₂ d₂ _ h₂ => ?_
    exact .pure ⟨by omega, by omega⟩

theorem proceeds_blockCommentBody (hanchor : d.Anchors d.pos) :
    blockCommentBody.Proceeds .all settings s d fun last _ d' => d.pos ≤ last ∧ last ≤ d'.pos := by
  refine .repeating (fun _ _ d' => d'.Anchors d.pos ∧ d.pos ≤ d'.pos) ?_ ⟨hanchor, le_rfl⟩
  intro _ s' d' ⟨hanchor, hle⟩
  refine (proceeds_byte? 0).bind fun b s₁ d₁ ho₁ h₁ => ?_
  have hanchor₁ := ho₁.anchors hanchor
  split
  · exact proceeds_fail rfl
  · have hb := h₁.2 _ rfl
    refine (proceeds_advance _ (by omega)).bind fun _ s₂ d₂ ho₂ h₂ => ?_
    refine (proceeds_byte? 0).bind fun b s₃ d₃ ho₃ h₃ => ?_
    have hanchor₃ := (ho₂.trans ho₃).anchors hanchor₁
    split
    · rename_i hslash
      have hseen := h₃.2 0x2F (by simpa using hslash)
      refine (proceeds_behind _ ⟨by omega, hanchor₃.mono (by omega)⟩).bind ?_
      rintro last _ _ - ⟨rfl, rfl, rfl⟩
      refine (proceeds_advance _ (by omega)).bind fun _ s₅ d₅ _ h₅ => ?_
      exact .pure ⟨by omega, by omega⟩
    · exact .pure ⟨⟨hanchor₃, by omega⟩, by omega⟩
  · have hb := h₁.2 _ rfl
    refine (proceeds_takeReturn (by omega)).bind fun _ s₂ d₂ ho₂ h₂ => ?_
    exact .pure ⟨⟨ho₂.anchors hanchor₁, by omega⟩, by omega⟩
  · have hb := h₁.2 _ rfl
    refine (proceeds_takeFeed (by omega)).bind fun _ s₂ d₂ ho₂ h₂ => ?_
    exact .pure ⟨⟨ho₂.anchors hanchor₁, by omega⟩, by omega⟩
  · have hb := h₁.2 _ rfl
    refine (proceeds_advance _ (by omega)).bind fun _ s₂ d₂ ho₂ h₂ => ?_
    exact .pure ⟨⟨ho₂.anchors hanchor₁, by omega⟩, by omega⟩

theorem length_trimBoth_le {α : Type} (drop : α → Bool) (xs : List α) :
    (xs.takeWhile drop).length + (Text.trimBoth drop xs).length ≤ xs.length := by
  have hsplit : (xs.takeWhile drop).length + (xs.dropWhile drop).length = xs.length := by
    rw [← List.length_append, List.takeWhile_append_dropWhile]
  have hle : ((xs.dropWhile drop).reverse.dropWhile drop).length ≤ (xs.dropWhile drop).reverse.length :=
    (List.dropWhile_sublist drop).length_le
  simp only [Text.trimBoth, List.length_reverse] at hle ⊢
  omega

/-- Trimming a span leaves a part of it. -/
theorem trimSpan_within {span : Span} {bytes : List UInt8} (hle : span.first ≤ span.last)
    (hlen : bytes.length = span.last - span.first) :
    span.first ≤ (trimSpan span bytes).first ∧
      (trimSpan span bytes).first ≤ (trimSpan span bytes).last ∧
      (trimSpan span bytes).last ≤ span.last := by
  have htrim := length_trimBoth_le Text.isMarginByte bytes
  simp only [trimSpan]
  omega

/-- What a comment leaves: nothing but other lines, or its body as the current token. -/
def Commented (surface : Bool) (s : State) (d : Reach total) (s' : State) (d' : Reach total) :
    Prop :=
  d.pos < d'.pos ∧ ∃ s₁, Onward .unread s d s₁ d' ∧
    if surface then
      ∃ span : Span, s' = s₁.publishComment (.held span) ∧ span ∈ d'.marks
    else s' = s₁

variable {ok : Unit → State → Reach total → Prop} {err : ReadError → State → Reach total → Prop}

/-- The end of a comment, behind its body. -/
theorem ensures_surface (surface : Bool) {first last : Nat} {s₀ : State} {d₀ : Reach total}
    (herr : Tolerates err s d) (ho : Onward .unread s₀ d₀ s d) (hlt : d₀.pos < d.pos)
    (h : d.Anchors first ∧ first ≤ last ∧ last ≤ d.pos) :
    (if surface = true then do
        let span : Span := { first, last }
        let trimmed := trimSpan span (← bytesOf span)
        modify (State.publishComment (.held (← hold trimmed.first trimmed.last)))
      else pure () : Reading Unit).Ensures settings s d
      (fun _ s' d' => Commented surface s₀ d₀ s' d') err := by
  cases surface with
  | false => exact (ensures_pure _).mpr ⟨hlt, s, ho, rfl⟩
  | true =>
      have hpos := d.pos_le
      refine (proceeds_bytesOf .all ⟨h.1, h.2.1, by dsimp only; omega⟩).next herr ?_
      rintro bytes _ _ - herr ⟨hlen, rfl, rfl⟩
      have hspan := trimSpan_within h.2.1 hlen
      have hanchor := h.1.mono hspan.1
      have hlast := hspan.2.2.trans h.2.2
      refine (proceeds_hold .all ⟨hanchor, hspan.2.1, hlast⟩).next herr ?_
      rintro _ _ d₁ ho₁ - ⟨rfl, rfl, hmem, -⟩
      exact (ensures_modify _).mpr
        ⟨hlt.trans_le ho₁.pos_le, _, ho.trans ho₁.unread, _, rfl, hmem⟩

/-- A comment consumes at least its mark. If it is surfaced, its span is still held. -/
theorem ensures_comment (surface : Bool) (herr : Tolerates err s d) (h : d.pos < d.seen) :
    (comment surface).Ensures settings s d (fun _ s' d' => Commented surface s d s' d') err := by
  refine (proceeds_advance .unread h).next herr fun _ s₁ d₁ ho₁ herr h₁ => ?_
  refine (proceeds_byte? 0).next herr fun mark s₂ d₂ ho₂ herr h₂ => ?_
  cases mark with
  | none => exact herr.fail rfl
  | some b =>
      have hb := h₂.2 b rfl
      dsimp only
      split
      · exact herr.unexpected _
      refine (proceeds_advance .unread (by omega)).next herr
        fun _ s₃ d₃ ho₃ herr h₃ => ?_
      apply (proceeds_cursor .all).next herr
      rintro first s₄ d₄ ho₄ hfail ⟨rfl, rfl, hpos, -, hanchor⟩
      have ho := ((ho₁.trans ho₂).trans ho₃).trans ho₄.unread
      split
      · refine proceeds_lineCommentBody.next hfail fun last s₅ d₅ ho₅ herr h₅ => ?_
        have hle := ho₅.pos_le
        exact ensures_surface surface herr (ho.trans ho₅.weaken) (by omega)
          ⟨ho₅.anchors hanchor, by omega, h₅.2⟩
      · refine (proceeds_blockCommentBody (hpos ▸ hanchor)).next hfail
          fun last s₅ d₅ ho₅ herr h₅ => ?_
        have hle := ho₅.pos_le
        exact ensures_surface surface herr (ho.trans ho₅.weaken) (by omega)
          ⟨ho₅.anchors hanchor, by omega, h₅.2⟩

end JsonPull.Reading
