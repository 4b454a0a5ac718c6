import JsonPull.Proofs.Reading.Ensures

/-! # Readings that only move on

Most readings look at the stream and consume some of it, and leave to others what the reader knows
apart from the lines. They are followed by one relation between two points of a run, which holds
where they succeed and where they fail. -/

namespace JsonPull

open Reading

/-- From one point of a run to a later one. Only the lines of the state may have changed, and where
all held bytes are to be retained, none was moved and no reference is lost. -/
structure Onward {total : Nat} (retain : Retain) (s : State) (d : Reach total) (s' : State)
    (d' : Reach total) : Prop where
  state_eq : s' = { s with lines := s'.lines }
  pos_le : d.pos ≤ d'.pos
  seen_le : d.seen ≤ d'.seen
  anchor_eq : retain = .all → ∀ a, d.anchor = some a → d'.anchor = some a
  marks_sub : retain = .all → ∀ span ∈ d.marks, span ∈ d'.marks

variable {total : Nat}

namespace Onward

variable {retain : Retain} {s s₁ s₂ : State} {d d₁ d₂ : Reach total}

theorem refl (retain : Retain) (s : State) (d : Reach total) : Onward retain s d s d :=
  ⟨rfl, le_rfl, le_rfl, fun _ _ => id, fun _ _ => id⟩

theorem look (retain : Retain) (s : State) (d : Reach total) : Onward retain s d s d.look := by
  refine ⟨rfl, le_rfl, le_rfl, fun _ a ha => ?_, fun _ _ => id⟩
  change some (d.anchor.getD d.pos) = some a
  rw [ha, Option.getD_some]

theorem trans (h₁ : Onward retain s d s₁ d₁) (h₂ : Onward retain s₁ d₁ s₂ d₂) :
    Onward retain s d s₂ d₂ where
  state_eq := by rw [h₂.state_eq, h₁.state_eq]
  pos_le := h₁.pos_le.trans h₂.pos_le
  seen_le := h₁.seen_le.trans h₂.seen_le
  anchor_eq h a ha := h₂.anchor_eq h a (h₁.anchor_eq h a ha)
  marks_sub h span hspan := h₂.marks_sub h span (h₁.marks_sub h span hspan)

theorem weaken (h : Onward .all s d s₁ d₁) : Onward retain s d s₁ d₁ :=
  ⟨h.state_eq, h.pos_le, h.seen_le, fun _ => h.anchor_eq rfl, fun _ => h.marks_sub rfl⟩

theorem unread (h : Onward retain s d s₁ d₁) : Onward .unread s d s₁ d₁ :=
  ⟨h.state_eq, h.pos_le, h.seen_le, nofun, nofun⟩

theorem anchors {first : Nat} (h : Onward .all s d s₁ d₁) (hd : d.Anchors first) :
    d₁.Anchors first :=
  hd.of_eq (h.anchor_eq rfl)

end Onward

namespace Reading

variable {α β τ : Type} {retain : Retain} {settings : Settings} {s : State} {d : Reach total}
  {ok ok' : α → State → Reach total → Prop}

/-- A reading that only moves on, whether it succeeds or fails. A failure shows the path at which
it happened, and it is no defect of the reader. -/
structure Proceeds (retain : Retain) (x : Reading α) (settings : Settings) (s : State)
    (d : Reach total) (ok : α → State → Reach total → Prop) : Prop where
  ensures : x.Ensures settings s d (fun a s' d' => Onward retain s d s' d' ∧ ok a s' d')
    (fun e s' d' => Onward retain s d s' d' ∧ e.path = s'.path ∧ e.kind.isDefect = false)

namespace Proceeds

theorem mono {x : Reading α} (h : x.Proceeds retain settings s d ok)
    (hok : ∀ a s' d', Onward retain s d s' d' → ok a s' d' → ok' a s' d') :
    x.Proceeds retain settings s d ok' :=
  ⟨h.ensures.mono (fun a s' d' h => ⟨h.1, hok a s' d' h.1 h.2⟩) fun _ _ _ h => h⟩

theorem weaken {x : Reading α} (h : x.Proceeds .all settings s d ok) :
    x.Proceeds retain settings s d ok :=
  ⟨h.ensures.mono (fun _ _ _ h => ⟨h.1.weaken, h.2⟩) fun _ _ _ h => ⟨h.1.weaken, h.2⟩⟩

theorem pure {a : α} (h : ok a s d) : (Pure.pure a : Reading α).Proceeds retain settings s d ok :=
  ⟨(ensures_pure a).mpr ⟨.refl retain s d, h⟩⟩

theorem bind {x : Reading β} {f : β → Reading α} {mid : β → State → Reach total → Prop}
    (hx : x.Proceeds retain settings s d mid)
    (hf : ∀ a s' d', Onward retain s d s' d' → mid a s' d' →
      (f a).Proceeds retain settings s' d' ok) :
    (x >>= f).Proceeds retain settings s d ok := by
  refine ⟨hx.ensures.bind ?_ fun _ _ _ h => h⟩
  intro a s' d' ⟨ho, hm⟩
  refine (hf a s' d' ho hm).ensures.mono ?_ ?_
  · intro b s'' d'' h
    exact ⟨ho.trans h.1, h.2⟩
  · intro e s'' d'' h
    exact ⟨ho.trans h.1, h.2⟩

theorem repeating {turn : τ → Reading (Turn τ α)} (inv : τ → State → Reach total → Prop)
    (hturn : ∀ x s d, inv x s d → (turn x).Proceeds retain settings s d (Turn.Leaves inv d ok))
    {x : τ} (h : inv x s d) : (Reading.repeating turn x).Proceeds retain settings s d ok := by
  refine ⟨ensures_repeating (fun x s' d' => Onward retain s d s' d' ∧ inv x s' d') ?_
    ⟨.refl .., h⟩⟩
  intro x s₁ d₁ ⟨ho, hi⟩
  refine (hturn x s₁ d₁ hi).ensures.mono ?_ ?_
  · rintro (x' | a) s₂ d₂ ⟨ho', h'⟩
    · exact ⟨⟨ho.trans ho', h'.1⟩, h'.2⟩
    · exact ⟨ho.trans ho', h'⟩
  · intro e s₂ d₂ h'
    exact ⟨ho.trans h'.1, h'.2⟩

end Proceeds

/-! ## Questions about the stream -/

/-- Where the cursor stood when it was looked up, bytes are found by their place. -/
theorem proceeds_cursor (retain : Retain) :
    cursor.Proceeds retain settings s d fun a s' d' => a = d.pos ∧ s' = s ∧ d'.pos = d.pos ∧
      d'.seen = d.seen ∧ d'.Anchors d.pos := by
  refine ⟨.ask trivial ?_⟩
  rintro a d' ⟨rfl, rfl⟩
  exact ⟨rfl, .look .., rfl, rfl, rfl, rfl, d.anchors_look⟩

theorem proceeds_advance (retain : Retain) {count : Nat} (h : d.pos + count ≤ d.seen) :
    (advance count).Proceeds retain settings s d
      fun _ s' d' => s' = s ∧ d'.pos = d.pos + count ∧ d'.seen = d.seen := by
  refine ⟨.ask h ?_⟩
  rintro a d' ⟨ha, hm, hp, hs, hf⟩
  exact ⟨hf, ⟨rfl, by omega, by omega, fun _ a h => ha.trans h, fun _ _ h => hm ▸ h⟩, rfl,
    hp, hs⟩

theorem proceeds_past (retain : Retain) {count : Nat} (h : d.pos + count ≤ d.seen) :
    (past count).Proceeds retain settings s d
      fun a s' d' => a = d.pos + count ∧ s' = s ∧ d' = d := by
  refine ⟨.ask h ?_⟩
  rintro a _ ⟨rfl, rfl⟩
  exact ⟨rfl, .refl .., rfl, rfl, rfl⟩

theorem proceeds_behind (retain : Retain) {count : Nat}
    (h : count ≤ d.pos ∧ d.Anchors (d.pos - count)) :
    (behind count).Proceeds retain settings s d
      fun a s' d' => a = d.pos - count ∧ s' = s ∧ d' = d := by
  refine ⟨.ask h ?_⟩
  rintro a _ ⟨rfl, rfl⟩
  exact ⟨rfl, .refl .., rfl, rfl, rfl⟩

theorem proceeds_settle :
    settle.Proceeds .unread settings s d fun _ s' d' => s' = s ∧ d'.pos = d.pos ∧
      d'.seen = d.seen := by
  refine ⟨.ask trivial ?_⟩
  rintro a d' ⟨-, -, hp, hs, hf⟩
  exact ⟨hf, ⟨rfl, by omega, by omega, nofun, nofun⟩, rfl, hp, hs⟩

theorem proceeds_get_bind {f : State → Reading α} (h : (f s).Proceeds retain settings s d ok) :
    (get >>= f).Proceeds retain settings s d ok :=
  ⟨(ensures_get_bind f).mpr h.ensures⟩

theorem proceeds_fail {kind : ErrorKind} (hkind : kind.isDefect = false) :
    (fail kind : Reading α).Proceeds retain settings s d ok :=
  ⟨(ensures_fail kind).mpr ⟨.look .., rfl, hkind⟩⟩

theorem proceeds_byte? (ahead : Nat) :
    (byte? ahead retain).Proceeds retain settings s d
      fun b _ d' => d'.pos = d.pos ∧ ∀ x, b = some x → d.pos + ahead < d'.seen := by
  have honward : ∀ answer d', (Query.byte ahead retain).Yields d answer d' →
      Onward retain s d s d' := by
    rintro answer d' ⟨ha, hm, hp, hs, -, -⟩
    refine ⟨rfl, by omega, hs, ?_, ?_⟩
    · rintro rfl a h
      exact ha.trans h
    · rintro rfl span h
      exact hm ▸ h
  refine ⟨.byte? ?_ ?_⟩
  · intro b d' hy
    exact ⟨honward _ d' hy, hy.2.2.1, fun x hx => hy.2.2.2.2.1 x (congrArg Except.ok hx)⟩
  · intro fault d' kind hy hkind
    have hdefect : kind.isDefect = false := by
      cases kind <;> first | rfl | cases hkind
    exact (ensures_fail kind).mpr ⟨(honward _ d' hy).trans (.look ..), rfl, hdefect⟩

theorem proceeds_bytesOf (retain : Retain) {span : Span}
    (h : d.Anchors span.first ∧ span.first ≤ span.last ∧ span.last ≤ d.seen) :
    (bytesOf span).Proceeds retain settings s d
      fun bytes s' d' => bytes.length = span.last - span.first ∧ s' = s ∧ d' = d := by
  have hask : (ask (.slice span.first span.last)).Proceeds retain settings s d
      fun a s' d' => (∃ bytes, a = some bytes ∧ bytes.length = span.last - span.first) ∧
        s' = s ∧ d' = d := by
    refine ⟨.ask h ?_⟩
    rintro a d' ⟨ha, rfl⟩
    exact ⟨rfl, .refl .., ha, rfl, rfl⟩
  apply hask.bind
  rintro _ _ _ - ⟨⟨bytes, rfl, hl⟩, rfl, rfl⟩
  exact .pure ⟨hl, rfl, rfl⟩

/-- A reference is taken only to what stays where it is. -/
theorem proceeds_hold (retain : Retain) {first last : Nat}
    (h : d.Anchors first ∧ first ≤ last ∧ last ≤ d.pos) :
    (hold first last).Proceeds retain settings s d
      fun span s' d' => span = { first, last } ∧ s' = s ∧ span ∈ d'.marks ∧ d'.pos = d.pos := by
  have hask : (ask (.hold first last)).Proceeds retain settings s d
      fun _ s' d' => s' = s ∧ { first, last } ∈ d'.marks ∧ d'.pos = d.pos := by
    refine ⟨.ask h ?_⟩
    rintro a _ ⟨hspan, rfl⟩
    have honward : Onward retain s d s (d.mark { first, last } hspan) :=
      ⟨rfl, le_rfl, le_rfl, fun _ _ => id, fun _ _ => List.mem_cons_of_mem _⟩
    exact ⟨rfl, honward, rfl, List.mem_cons_self .., rfl⟩
  apply hask.bind
  rintro _ _ _ - ⟨rfl, hmem, hpos⟩
  exact .pure ⟨rfl, rfl, hmem, hpos⟩

/-- A reference is resolved only while nothing was moved. -/
theorem proceeds_textOf (retain : Retain) {span : Span} (h : span ∈ d.marks) :
    (textOf span).Proceeds retain settings s d fun _ s' d' => s' = s ∧ d' = d := by
  have hask : (ask (.resolve span.first span.last)).Proceeds retain settings s d
      fun a s' d' => a.isSome = true ∧ s' = s ∧ d' = d := by
    refine ⟨.ask h ?_⟩
    rintro a _ ⟨ha, rfl⟩
    exact ⟨rfl, .refl .., ha, rfl, rfl⟩
  apply hask.bind
  rintro _ _ _ - ⟨ha, rfl, rfl⟩
  obtain ⟨bytes, rfl⟩ := Option.isSome_iff_exists.mp ha
  exact .pure ⟨rfl, rfl⟩

/-! ## Characters -/

theorem proceeds_bytes? (ahead count : Nat) :
    (bytes? ahead count retain).Proceeds retain settings s d
      fun r _ d' => d'.pos = d.pos ∧ ∀ bs, r = some bs → d.pos + ahead + count < d'.seen := by
  refine (proceeds_byte? _).bind fun b s₁ d₁ _ h₁ => ?_
  cases b with
  | none => exact .pure ⟨h₁.1, nofun⟩
  | some b =>
      have hlast := h₁.2 b rfl
      refine (proceeds_cursor _).bind ?_
      rintro _ s₂ d₂ - ⟨rfl, rfl, hpos, hseen, hanchor⟩
      refine (proceeds_bytesOf _ ⟨hanchor.mono (Nat.le_add_right _ _), ?_, ?_⟩).bind ?_
      · exact Nat.le_add_right _ _
      · dsimp only
        omega
      rintro bytes s₃ d₃ - ⟨-, rfl, rfl⟩
      exact .pure ⟨by omega, fun _ _ => by omega⟩

theorem sequenceLength_pos (lead : UInt8) : 0 < Text.sequenceLength lead := by
  unfold Text.sequenceLength
  split_ifs <;> decide

/-- The bytes of the character were all fetched. -/
theorem proceeds_charAt? (ahead : Nat) :
    (charAt? ahead retain).Proceeds retain settings s d
      fun r _ d' => d'.pos = d.pos ∧
        ∀ c n, r = some (c, n) → 0 < n ∧ d.pos + ahead + n ≤ d'.seen := by
  refine (proceeds_byte? ahead).bind fun b s₁ d₁ _ h₁ => ?_
  cases b with
  | none => exact .pure ⟨h₁.1, nofun⟩
  | some lead =>
      have hlead := h₁.2 lead rfl
      have hlen := sequenceLength_pos lead
      dsimp only
      split
      · refine .pure ⟨h₁.1, ?_⟩
        rintro c n ⟨⟩
        omega
      split
      · refine .pure ⟨h₁.1, ?_⟩
        rintro c n ⟨⟩
        omega
      refine (proceeds_bytes? _ _).bind fun r s₂ d₂ h₂ hr => ?_
      have hseen := h₂.seen_le
      have hpos : d₂.pos = d.pos := hr.1.trans h₁.1
      cases r with
      | none =>
          refine .pure ⟨hpos, ?_⟩
          rintro c n ⟨⟩
          omega
      | some bytes =>
          have hlast := hr.2 bytes rfl
          dsimp only
          split
          all_goals
            refine .pure ⟨hpos, ?_⟩
            rintro c n ⟨⟩
            omega

theorem proceeds_foundAtCursor :
    foundAtCursor.Proceeds .all settings s d
      fun r _ d' => d'.pos = d.pos ∧ d.pos + r.2 ≤ d'.seen := by
  refine (proceeds_charAt? 0).bind fun r s₁ d₁ h₁ hr => ?_
  cases r with
  | none =>
      have hseen := h₁.seen_le
      have hpos := d.pos_le
      refine .pure ⟨hr.1, ?_⟩
      dsimp only
      omega
  | some r => exact .pure ⟨hr.1, (hr.2 r.1 r.2 rfl).2⟩

theorem proceeds_unexpected (site : CharSite) :
    (unexpected site : Reading α).Proceeds retain settings s d ok :=
  .weaken (proceeds_foundAtCursor.bind fun _ _ _ _ _ => proceeds_fail rfl)

/-! ## Readings that do more than move on -/

/-- A failure that is no defect is allowed wherever readings that only move on may lead. -/
def Tolerates (err : ReadError → State → Reach total → Prop) (s : State) (d : Reach total) :
    Prop :=
  ∀ e s' d', Onward .unread s d s' d' → e.path = s'.path → e.kind.isDefect = false → err e s' d'

variable {err : ReadError → State → Reach total → Prop}

/-- A reading that only moved on is followed by one that does more. -/
theorem Proceeds.next {x : Reading β} {f : β → Reading α} {mid : β → State → Reach total → Prop}
    (hx : x.Proceeds retain settings s d mid) (herr : Tolerates err s d)
    (hf : ∀ a s' d', Onward retain s d s' d' → Tolerates err s' d' → mid a s' d' →
      (f a).Ensures settings s' d' ok err) :
    (x >>= f).Ensures settings s d ok err := by
  refine hx.ensures.bind ?_ fun e s' d' h => herr e s' d' h.1.unread h.2.1 h.2.2
  intro a s' d' ⟨ho, hm⟩
  refine hf a s' d' ho ?_ hm
  intro e s₁ d₁ ho₁ hpath hkind
  exact herr e s₁ d₁ (ho.unread.trans ho₁) hpath hkind

theorem Tolerates.fail (herr : Tolerates err s d) {kind : ErrorKind}
    (hkind : kind.isDefect = false) : (fail kind : Reading α).Ensures settings s d ok err :=
  (ensures_fail kind).mpr (herr _ s d.look (.look ..) rfl hkind)

theorem Tolerates.unexpected (herr : Tolerates err s d) (site : CharSite) :
    (unexpected site : Reading α).Ensures settings s d ok err :=
  proceeds_foundAtCursor.next herr fun _ _ _ _ herr _ => herr.fail rfl

theorem Tolerates.unexpectedConsumed (herr : Tolerates err s d) (site : CharSite) :
    (unexpectedConsumed site : Reading α).Ensures settings s d ok err := by
  refine proceeds_foundAtCursor.next herr fun r s₁ d₁ _ herr h₁ => ?_
  refine (proceeds_advance .all ?_).next herr fun _ _ _ _ herr _ => herr.fail rfl
  rw [h₁.1]
  exact h₁.2

end Reading

end JsonPull
