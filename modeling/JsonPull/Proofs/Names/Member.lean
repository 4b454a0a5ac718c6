import JsonPull.Proofs.Comments.Gap
import JsonPull.Proofs.Names.Spelling

/-! # Members of an object

Before a name there may be blanks and comments, and behind another member its comma. They are passed,
and then the name is read in the spelling that it has. -/

namespace JsonPull

open JsonPull.Json

variable {settings : Settings} {stream gap before space more rest : List UInt8} {s : State} {pos : Nat}
  {name : String} {surface : Bool}

/-- Blanks, and also comments unless they are surfaced. -/
inductive Skipped (surface : Bool) : List UInt8 → Prop where
  | space {space : List UInt8} (hspace : IsSpace space) : Skipped surface space
  | gap {gap : List UInt8} (hhidden : surface = false) (hgap : Gap gap) : Skipped surface gap

/-- What a reader passes before a name: at first in an object and behind a comma, blanks and comments;
behind another member, also its comma. -/
inductive LeadsToName (settings : Settings) (s : State) : List UInt8 → Prop where
  | due {gap : List UInt8} (hphase : s.phase = .opened .object ∨ s.phase = .within .object)
      (hgap : Skipped settings.surfaceComments gap) : LeadsToName settings s gap
  | comma {gap gap' : List UInt8} (hphase : s.phase = .postValue)
      (hinside : s.innermost? = some .object) (hgap : Skipped settings.surfaceComments gap)
      (hgap' : Skipped settings.surfaceComments gap') : LeadsToName settings s (gap ++ 0x2C :: gap')

namespace Reading

/-! ## Names -/

theorem succeeds_property_spelling (hname : IsName name) (spelling : Spelling) (hspace : IsSpace space)
    (h : Ahead stream pos (spelling.write name ++ (space ++ 0x3A :: rest))) :
    property.Succeeds settings stream s pos fun _ s' pos' =>
      Named settings stream rest s name s' pos' ∧ s'.quote = spelling.mark? := by
  obtain ⟨b, hhead, -, -, hmark⟩ := hname.head_write spelling (space ++ 0x3A :: rest)
  unfold property
  rw [succeeds_bind, succeeds_byte?, h.head?, hhead, hmark, succeeds_bind, succeeds_read, succeeds_bind]
  refine (succeeds_nameText hname spelling hspace h).mono ?_
  rintro _ s₁ pos₁ ⟨rfl, hs₁, h₁⟩
  rw [succeeds_bind]
  refine succeeds_skipBlanks_space hspace (isSolid_cons (by decide) rest) h₁ fun s₂ pos₂ hs₂ h₂ => ?_
  rw [List.head?_cons, if_pos (beq_self_eq_true _), succeeds_bind, succeeds_advance, succeeds_modify]
  obtain ⟨hphase, htoken, hslot, hframes⟩ := (hs₁.trans hs₂).publishName (settings.intern _)
  exact ⟨⟨⟨hphase, htoken, hslot, hframes⟩, h₂.tail⟩, rfl⟩

/-! ## What stands before -/

/-- A repetition that skips blanks and passes comments comes to what follows them. -/
theorem succeeds_skipping {f : Option UInt8 → Reading (Turn Unit Bool)} (hgap : Skipped surface gap)
    (hrest : Inked rest) (h : Ahead stream pos (gap ++ rest))
    (hslash : ∀ (s' : State) pos' (post : Turn Unit Bool → State → Nat → Prop),
      (passComment surface).Succeeds settings stream s' pos' post →
      (f (some 0x2F)).Succeeds settings stream s' pos' post)
    {post : Bool → State → Nat → Prop}
    (hf : ∀ s' pos', s.Same s' → Ahead stream pos' rest →
      (f rest.head?).Succeeds settings stream s' pos' fun turn s'' pos'' =>
        ∃ b, turn = .stop b ∧ post b s'' pos'') :
    (repeating (fun _ : Unit => skipBlanks >>= f) ()).Succeeds settings stream s pos post := by
  have hspace : ∀ (space : List UInt8) (s₁ : State) (pos₁ : Nat), IsSpace space → s.Same s₁ →
      Ahead stream pos₁ (space ++ rest) →
      (repeating (fun _ : Unit => skipBlanks >>= f) ()).Succeeds settings stream s₁ pos₁ post := by
    intro space s₁ pos₁ hspace hs h
    apply succeeds_repeating
    rw [succeeds_bind]
    refine succeeds_skipBlanks_until hspace hrest h fun s' pos' hs' ha => ?_
    refine (hf s' pos' (hs.trans hs') ha).mono ?_
    rintro _ s'' pos'' ⟨b, rfl, hpost⟩
    exact hpost
  cases hgap with
  | space hgap => exact hspace gap s pos hgap (.refl s) h
  | gap hhidden hgap =>
      subst hhidden
      -- The blanks that were met before a comment are carried in front of what is left of the gap.
      have hgaps : ∀ (space : List UInt8) (s₁ : State) (pos₁ : Nat), IsSpace space → s.Same s₁ →
          Ahead stream pos₁ (space ++ (gap ++ rest)) →
          (repeating (fun _ : Unit => skipBlanks >>= f) ()).Succeeds settings stream s₁ pos₁ post := by
        clear h
        induction hgap with
        | nil => exact hspace
        | @blank c gap hblank hgap ih =>
            intro space s₁ pos₁ hbefore hs h
            refine ih (space ++ (Text.encode c ++ [])) s₁ pos₁ (hbefore.append (.blank hblank .nil)) hs ?_
            rw [List.append_nil, List.append_assoc]
            rwa [List.append_assoc] at h
        | @comment comment gap hcomment hgap ih =>
            intro space s₁ pos₁ hbefore hs h
            rw [List.append_assoc] at h
            obtain ⟨s', pos', hcommented, hahead, hleads⟩ :=
              skipping_comment hbefore (hcomment.append rest) h hslash
            exact hleads post (ih [] s' pos' .nil (hs.trans (hcommented.same rfl)) hahead)
      exact hgaps [] s pos .nil (.refl s) h

theorem succeeds_separator_member (hphase : s.phase = .postValue)
    (hgap : Skipped surface gap) (h : Ahead stream pos (gap ++ 0x2C :: rest)) :
    (separator surface).Succeeds settings stream s pos fun found s' pos' =>
      found = false ∧ Arrives settings s s' ∧ Ahead stream pos' rest := by
  refine succeeds_skipping hgap (isSolid_cons (by decide) rest).inked h (fun _ _ _ hpass => hpass)
    fun s' pos' hs ha => ?_
  exact succeeds_takeComma.mpr ⟨false, rfl, rfl, .resumed hphase hs, ha.tail⟩

/-- The name is what a member begins with. -/
theorem succeeds_member_spelling (hname : IsName name) (spelling : Spelling) (hspace : IsSpace space)
    (hgap : Skipped settings.surfaceComments gap)
    (h : Ahead stream pos (gap ++ (spelling.write name ++ (space ++ 0x3A :: rest)))) :
    member.Succeeds settings stream s pos fun found s' pos' => found = true ∧
      Named settings stream rest s name s' pos' ∧ s'.quote = spelling.mark? := by
  refine succeeds_skipping hgap (hname.inked spelling _) h (fun s' pos' post hpass => ?_)
    fun s' pos' hs ha => ?_
  · exact (succeeds_bind _ _).mpr (succeeds_read.mpr hpass)
  · obtain ⟨b, hhead, hend, hslash, -⟩ := hname.head_write spelling (space ++ 0x3A :: rest)
    rw [hhead]
    split
    · rename_i heq
      cases heq
    · rename_i heq
      exact absurd (Option.some.inj heq) hend
    · rename_i heq
      exact absurd (Option.some.inj heq) hslash
    · rw [succeeds_found]
      refine (succeeds_property_spelling hname spelling hspace ha).mono ?_
      rintro _ s'' pos'' ⟨⟨hnamed, ha'⟩, hquote⟩
      exact ⟨true, rfl, rfl, ⟨(hs.publishName _).trans hnamed, ha'⟩, hquote⟩

/-- Where the name of a property is due, it is read in each of its spellings. -/
theorem succeeds_token_spelling (hname : IsName name) (spelling : Spelling) (hspace : IsSpace space)
    (hbefore : LeadsToName settings s before)
    (h : Ahead stream pos (before ++ (spelling.write name ++ (space ++ 0x3A :: rest)))) :
    token.Succeeds settings stream s pos fun found s' pos' => found = true ∧
      Named settings stream rest s name s' pos' ∧ s'.quote = spelling.mark? := by
  cases hbefore with
  | due hphase hgap =>
      have hdue : s.phase ≠ .postValue := by
        rcases hphase with hphase | hphase <;> rw [hphase] <;> nofun
      rw [succeeds_token hdue, succeeds_part_member hphase]
      exact succeeds_member_spelling hname spelling hspace hgap h
  | comma hphase hinside hgap hgap' =>
      rw [List.append_assoc, List.cons_append] at h
      rw [succeeds_token_separated hphase]
      refine (succeeds_separator_member hphase hgap h).mono ?_
      rintro _ s₁ pos₁ ⟨rfl, harrives, ha⟩
      have hdue : s₁.phase = .within .object := by
        rw [harrives.phase_eq, State.nextPhase, if_pos hphase, State.resumeContainer, hinside]
      rw [if_neg Bool.false_ne_true, succeeds_part_member (.inr hdue)]
      refine (succeeds_member_spelling hname spelling hspace hgap' ha).mono ?_
      rintro _ s' pos' ⟨rfl, ⟨hnamed, ha'⟩, hquote⟩
      exact ⟨rfl, ⟨(harrives.publishName _).trans hnamed, ha'⟩, hquote⟩

end Reading

end JsonPull
