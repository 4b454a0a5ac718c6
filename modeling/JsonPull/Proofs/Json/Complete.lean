import JsonPull.Proofs.Grammar.Element
import JsonPull.Proofs.Json.Parts

/-! # Texts that are read to their end

The grammar leaves two ways to fail: a number may have no value under the settings, and containers
may be nested too deep. A text that is read to its end once is past both, and so it gives the same
tokens wherever it stands, whether or not other values may follow. -/

namespace JsonPull

open JsonPull.Json JsonPull.Outline

variable {settings : Settings} {stream blank text rest : List UInt8} {phase : Phase}
  {kinds : List Container}

namespace Whole

variable {r r' : Whole} {tokens : List (Token × Option Value)}

/-- Reads find tokens one after another, and then no more. -/
def Completes (settings : Settings) (stream : List UInt8) (r : Whole) : Prop :=
  ∃ tokens r' r'', r.Produces settings stream tokens r' ∧
    r'.call settings stream .read = (.ok (.found false), r'')

theorem succeeds_of_call {b : Bool} (h : r.call settings stream .read = (.ok (.found b), r')) :
    Reading.token.Succeeds settings stream r.state.clearSlot r.cursor fun _ _ _ => True := by
  have hnext : Tokenizer.next.Succeeds settings stream r.state r.cursor fun _ _ _ => True := by
    rw [call_eq] at h
    unfold Whole.run at h
    generalize hrun : ((Call.read.program.run settings).run.run r.state).runWith (tape stream)
      r.cursor = outcome at h
    obtain ⟨⟨e | found, s'⟩, pos'⟩ := outcome
    · cases h
    · exact ⟨found, s', pos', hrun, trivial⟩
  unfold Tokenizer.next at hnext
  rwa [Reading.succeeds_bind, Reading.succeeds_modify] at hnext

theorem Completes.succeeds (h : r.Completes settings stream) :
    Reading.token.Succeeds settings stream r.state.clearSlot r.cursor fun _ _ _ => True := by
  obtain ⟨tokens, r', r'', hproduces, hend⟩ := h
  cases tokens with
  | nil =>
      cases hproduces
      exact succeeds_of_call hend
  | cons token tokens =>
      obtain ⟨r₁, hcall, -⟩ := hproduces
      exact succeeds_of_call hcall

/-- What was read is behind, and the rest is read to its end. -/
theorem Completes.produces (h : r.Completes settings stream)
    (hproduces : r.Produces settings stream tokens r') : r'.Completes settings stream := by
  induction tokens generalizing r with
  | nil =>
      cases hproduces
      exact h
  | cons token tokens ih =>
      obtain ⟨r₁, hcall, -, -, hrest⟩ := hproduces
      obtain ⟨tokens', r₂, r₃, hproduces', hend⟩ := h
      cases tokens' with
      | nil =>
          cases hproduces'
          cases hcall.symm.trans hend
      | cons token' tokens' =>
          obtain ⟨r₁', hcall', -, -, hrest'⟩ := hproduces'
          cases hcall.symm.trans hcall'
          exact ih ⟨tokens', r₂, r₃, hrest', hend⟩ hrest

end Whole

namespace Json

/-! ## How tokens are nested -/

/-- Tokens of a part of a text are balanced and leave so many containers open on the way; those of a
value are one element. -/
structure Nests (shape : Shape) (tokens : List (Token × Option Value)) (depth : Nat) : Prop where
  within : Within tokens
  reached : ∃ before, before <+: tokens ∧ Outline.nesting before = depth
  element : shape = .value → IsElement tokens

namespace Nests

variable {shape part whole : Shape} {tokens tokens' : List (Token × Option Value)}
  {depth depth' : Nat}

theorem scalar (kind : Scalar) (value : Option Value) : Nests .value [(.scalar kind, value)] 0 :=
  ⟨(IsElement.scalar kind value).within, ⟨[], List.nil_prefix, rfl⟩, fun _ => .scalar kind value⟩

theorem nil (hshape : shape ≠ .value) : Nests shape [] 0 :=
  ⟨.nil, ⟨[], List.nil_prefix, rfl⟩, fun h => absurd h hshape⟩

theorem enclosed (h : Nests whole tokens depth) (c : Container) :
    Nests .value ((.opening c, none) :: tokens ++ [(.closing c, none)]) (depth + 1) := by
  obtain ⟨before, hbefore, hdepth⟩ := h.reached
  have helement := IsElement.enclosed c h.within
  refine ⟨helement.within, ⟨(.opening c, none) :: before, ?_, ?_⟩, fun _ => helement⟩
  · exact List.prefix_append_of_prefix ((List.prefix_cons_inj _).mpr hbefore)
  · rw [← List.singleton_append, nesting_append, nesting_opening, hdepth, Nat.cast_succ, add_comm]

theorem last (h : Nests part tokens depth) (hwhole : whole ≠ .value) : Nests whole tokens depth :=
  ⟨h.within, h.reached, fun hvalue => absurd hvalue hwhole⟩

theorem next (h : Nests part tokens depth) (h' : Nests whole tokens' depth')
    (hwhole : whole ≠ .value) : Nests whole (tokens ++ tokens') (max depth depth') := by
  refine ⟨h.within.append h'.within, ?_, fun hvalue => absurd hvalue hwhole⟩
  rcases Nat.le_total depth' depth with hle | hle
  · obtain ⟨before, hbefore, hdepth⟩ := h.reached
    rw [Nat.max_eq_left hle]
    exact ⟨before, hbefore.trans (List.prefix_append _ _), hdepth⟩
  · obtain ⟨before, hbefore, hdepth⟩ := h'.reached
    rw [Nat.max_eq_right hle]
    refine ⟨tokens ++ before, (List.prefix_append_right_inj _).mpr hbefore, ?_⟩
    rw [nesting_append, h.within.closed, hdepth, zero_add]

theorem member (h : Nests .value tokens depth) (name : String) :
    Nests .member ((.propertyName, some (.string name)) :: tokens) depth := by
  have hname : Within [(.propertyName, some (.string name))] := within_singleton rfl rfl
  obtain ⟨before, hbefore, hdepth⟩ := h.reached
  refine ⟨hname.append h.within, ?_, nofun⟩
  refine ⟨_ :: before, (List.prefix_cons_inj _).mpr hbefore, ?_⟩
  rw [← List.singleton_append, nesting_append, hname.closed, hdepth, zero_add]

end Nests

/-- A part of a text gives these tokens, whether or not other values may follow. -/
structure Recites (settings : Settings) (shape : Shape) (tokens : List (Token × Option Value))
    (depth : Nat) (text : List UInt8) : Prop where
  reads : ∀ multipleValues stream,
    Reads { settings with multipleValues } stream shape tokens depth text
  nests : Nests shape tokens depth
  visible : ∀ token ∈ tokens, token.1 ≠ .comment ∧ token.1 ≠ .none

/-- Where a part of a text is read to its end, it gives some tokens, and gives them everywhere. -/
def Tells (settings : Settings) (stream : List UInt8) (shape : Shape) (text : List UInt8) : Prop :=
  ∀ ⦃r : Whole⦄ ⦃phase kinds blank rest⦄, shape.Fits phase kinds → IsBlank blank →
    EndsWord phase rest → Allows settings kinds.length →
    Reading.Awaits settings stream phase kinds (blank ++ (text ++ rest)) r.state.clearSlot
      r.cursor →
    r.Completes settings stream →
    ∃ tokens depth, Recites settings shape tokens depth text ∧
      Allows settings (kinds.length + depth)

variable {r : Whole} {shape whole part : Shape} {tokens : List (Token × Option Value)} {depth : Nat}
  {b : UInt8} {c : Container} {blank' inner quoted : List UInt8}

/-! ## Scalars -/

/-- A part without containers tells what it gives in any case. -/
theorem Recites.tells (h : Recites settings shape tokens 0 text) :
    Tells settings stream shape text :=
  fun _ _ _ _ _ _ _ _ hdepth _ _ => ⟨tokens, 0, h, hdepth⟩

theorem tells_string (h : IsStringText text) : Tells settings stream .value text := by
  obtain ⟨string, hquotes⟩ := h.quotes
  have hrecites : Recites settings .value [(.scalar (Reading.textEntry settings.dates string).1,
      some (Reading.textEntry settings.dates string).2)] 0 text :=
    ⟨fun _ _ => reads_string hquotes, .scalar _ _, by simp⟩
  exact hrecites.tells

/-- A number that is read has a value. -/
theorem convert_of_completes (hnumber : IsNumber text) (hphase : phase.expectsValue = true)
    (hblank : IsBlank blank) (hend : EndsWord phase rest)
    (h : Reading.Awaits settings stream phase kinds (blank ++ (text ++ rest)) r.state.clearSlot
      r.cursor) (hcompletes : r.Completes settings stream) :
    ∃ v, Lexeme.convert settings .plain text = .ok (some v) := by
  have hvalue : ∀ {s pos}, Ahead stream pos (text ++ rest) →
      (Reading.numberValue .plain).Succeeds settings stream s pos (fun _ _ _ => True) →
      ∃ v, Lexeme.convert settings .plain text = .ok (some v) := by
    intro s pos ha hsucceeds
    obtain ⟨v, hv, -⟩ :=
      (Reading.succeeds_numberValue (isByte_number hnumber) hend.terminates ha).mp hsucceeds
    exact ⟨v, hv⟩
  obtain ⟨b, more, hb, rfl | rfl⟩ := begin_number hnumber
  · obtain ⟨hlead, hsolid, -⟩ := digit_cases hb
    obtain ⟨s, pos, hstands, hiff⟩ := h.announced hphase hblank (by rw [hlead]; rfl) hsolid
    exact hvalue hstands.ahead ((hiff _).mp hcompletes.succeeds)
  · obtain ⟨-, -, hne⟩ := digit_cases hb
    obtain ⟨s, pos, hstands, hiff⟩ := h.announced hphase hblank rfl (by decide)
    have hminus := (hiff _).mp hcompletes.succeeds
    exact hvalue hstands.ahead ((Reading.succeeds_negativeValue hne hstands.ahead).mp hminus)

theorem tells_number (hnumber : IsNumber text) : Tells settings stream .value text := by
  intro r phase kinds blank rest hphase hblank hend hdepth hawaits hcompletes
  obtain ⟨v, hconvert⟩ := convert_of_completes hnumber hphase hblank hend hawaits hcompletes
  exact ⟨_, 0, ⟨fun _ _ => reads_number hnumber hconvert, .scalar _ _, by simp⟩, hdepth⟩

/-! ## Containers -/

/-- A container that is read may be open. -/
theorem allows_of_completes (hencloses : Encloses b c whole part)
    (hphase : phase.expectsValue = true) (hblank : IsBlank blank)
    (h : Reading.Awaits settings stream phase kinds (blank ++ b :: rest) r.state.clearSlot
      r.cursor) (hcompletes : r.Completes settings stream) :
    Allows settings (kinds.length + 1) := by
  obtain ⟨s', pos', -, hiff⟩ := h.opening hphase hblank hencloses.lead hencloses.solid
  exact ((hiff _).mp hcompletes.succeeds).1

theorem tells_empty (hencloses : Encloses b c whole part) (hblank : IsBlank blank) :
    Tells settings stream .value (b :: (blank ++ [Reading.mark c])) := by
  intro r phase kinds blank' rest hphase hblank' _ _ hawaits hcompletes
  have hdepth := allows_of_completes hencloses hphase hblank' hawaits hcompletes
  have hnests := (Nests.nil hencloses.ne_value).enclosed c
  exact ⟨_, 1, ⟨fun _ _ => reads_empty hencloses hblank, hnests, by simp⟩, hdepth⟩

theorem Recites.enclosed (h : Recites settings whole tokens depth inner)
    (hencloses : Encloses b c whole part) (hblank : IsBlank blank) :
    Recites settings .value ((.opening c, none) :: tokens ++ [(.closing c, none)]) (depth + 1)
      (b :: (inner ++ (blank ++ [Reading.mark c]))) := by
  refine ⟨fun _ _ => (h.reads _ _).enclosed hencloses hblank, h.nests.enclosed c, ?_⟩
  simp only [List.cons_append, List.forall_mem_cons, List.forall_mem_append]
  exact ⟨⟨nofun, nofun⟩, h.visible, by simp⟩

theorem Recites.next {tokens' : List (Token × Option Value)} {depth' : Nat}
    (h : Recites settings part tokens depth text) (hrest : Recites settings whole tokens' depth' inner)
    (hencloses : Encloses b c whole part) (hblank : IsBlank blank) (hblank' : IsBlank blank') :
    Recites settings whole (tokens ++ tokens') (max depth depth')
      (blank ++ (text ++ (blank' ++ 0x2C :: inner))) :=
  ⟨fun _ _ => (h.reads _ _).next (hrest.reads _ _) hencloses hblank hblank',
    h.nests.next hrest.nests hencloses.ne_value,
    List.forall_mem_append.mpr ⟨h.visible, hrest.visible⟩⟩

theorem Recites.member {name : String} (h : Recites settings .value tokens depth text)
    (hname : Quotes quoted name) (hblank : IsBlank blank) (hblank' : IsBlank blank') :
    Recites settings .member ((.propertyName, some (.string (settings.intern name))) :: tokens)
      depth (quoted ++ (blank ++ 0x3A :: (blank' ++ text))) :=
  ⟨fun _ _ => (h.reads _ _).member hname hblank hblank', h.nests.member _,
    List.forall_mem_cons.mpr ⟨⟨nofun, nofun⟩, h.visible⟩⟩

theorem Tells.enclosed (h : Tells settings stream whole inner)
    (hencloses : Encloses b c whole part) (hblank : IsBlank blank) :
    Tells settings stream .value (b :: (inner ++ (blank ++ [Reading.mark c]))) := by
  intro r phase kinds blank' rest hphase hblank' _ _ hawaits hcompletes
  have hallows := allows_of_completes hencloses hphase hblank' hawaits hcompletes
  simp only [List.cons_append, List.append_assoc, List.nil_append] at hawaits
  obtain ⟨r₁, hproduces, hstands⟩ :=
    reaches_opening hencloses.lead hencloses.solid hphase hblank' hallows hawaits
  obtain ⟨tokens, depth, hrecites, hdepth⟩ := h (hencloses.fits_opened kinds) isBlank_nil
    ((isEnd_mark c hencloses.ne_constructor hblank rest).endsWord _) hallows
    (Reading.awaits_part hstands.clearSlot nofun) (hcompletes.produces hproduces)
  refine ⟨_, depth + 1, hrecites.enclosed hencloses hblank, ?_⟩
  rwa [List.length_cons, Nat.add_assoc, Nat.add_comm 1] at hdepth

theorem Tells.last (h : Tells settings stream part text) (hencloses : Encloses b c whole part)
    (hblank : IsBlank blank) : Tells settings stream whole (blank ++ text) := by
  intro r phase kinds blank' rest hfits hblank' hend hallows hawaits hcompletes
  rw [List.append_assoc, ← List.append_assoc] at hawaits
  obtain ⟨tokens, depth, hrecites, hdepth⟩ :=
    h (hencloses.fits_part hfits) (hblank'.append hblank) hend hallows hawaits hcompletes
  exact ⟨tokens, depth, ⟨fun _ _ => (hrecites.reads _ _).last hencloses hblank,
    hrecites.nests.last hencloses.ne_value, hrecites.visible⟩, hdepth⟩

theorem Tells.next (h : Tells settings stream part text) (hrest : Tells settings stream whole inner)
    (hencloses : Encloses b c whole part) (hblank : IsBlank blank) (hblank' : IsBlank blank') :
    Tells settings stream whole (blank ++ (text ++ (blank' ++ 0x2C :: inner))) := by
  intro r phase kinds blank₁ rest hfits hblank₁ hend hallows hawaits hcompletes
  obtain ⟨outer, rfl⟩ := hencloses.kinds_eq hfits
  simp only [List.append_assoc, List.cons_append] at hawaits
  rw [← List.append_assoc] at hawaits
  have hcomma := (isEnd_comma hblank' (inner ++ rest)).endsWord phase
  obtain ⟨tokens, depth, hrecites, hdepth⟩ := h (hencloses.fits_part hfits)
    (hblank₁.append hblank) hcomma hallows hawaits hcompletes
  obtain ⟨r₁, hproduces, hstands⟩ := hrecites.reads settings.multipleValues stream
    (hencloses.fits_part hfits) (hblank₁.append hblank) hcomma hdepth hawaits
  obtain ⟨tokens', depth', hrecites', hdepth'⟩ := hrest (hencloses.fits_within outer) isBlank_nil
    (hend.of_not_inConstructor (hencloses.outside hfits)) hallows
    (Reading.awaits_comma hblank' hstands.clearSlot) (hcompletes.produces hproduces)
  exact ⟨_, _, hrecites.next hrecites' hencloses hblank hblank', hdepth.max hdepth'⟩

theorem Tells.member (h : Tells settings stream .value text) (hname : IsStringText quoted)
    (hblank : IsBlank blank) (hblank' : IsBlank blank') :
    Tells settings stream .member (quoted ++ (blank ++ 0x3A :: (blank' ++ text))) := by
  intro r phase kinds blank₁ rest hfits hblank₁ hend hallows hawaits hcompletes
  obtain ⟨name, hquotes⟩ := hname.quotes
  simp only [List.append_assoc, List.cons_append] at hawaits
  obtain ⟨r₁, hproduces, hstands⟩ := Whole.reaches_of_succeeds
    (Reading.succeeds_token_name hfits.1 hquotes hblank₁ hblank hawaits)
  have hvalue : Shape.value.Fits .property kinds := rfl
  obtain ⟨tokens, depth, hrecites, hdepth⟩ := h hvalue hblank'
    (hend.of_not_inConstructor (Encloses.object.outside hfits)) hallows
    (Reading.awaits_part hstands.clearSlot nofun) (hcompletes.produces hproduces)
  exact ⟨_, depth, hrecites.member hquotes hblank hblank', hdepth⟩

/-- Every text of the grammar tells what it gives. -/
theorem Derives.tells (h : Derives shape text) : Tells settings stream shape text := by
  induction h with
  | null => exact Recites.tells ⟨fun _ _ => reads_null, .scalar _ _, by simp⟩
  | true => exact Recites.tells ⟨fun _ _ => reads_boolean Bool.true, .scalar _ _, by simp⟩
  | false => exact Recites.tells ⟨fun _ _ => reads_boolean Bool.false, .scalar _ _, by simp⟩
  | number h => exact tells_number h
  | string h => exact tells_string h
  | emptyArray hblank => exact tells_empty .array hblank
  | array h hblank ih => exact ih.enclosed .array hblank
  | emptyObject hblank => exact tells_empty .object hblank
  | object h hblank ih => exact ih.enclosed .object hblank
  | lastItem hblank h ih => exact ih.last .array hblank
  | nextItem hblank h hblank' hrest ih ihrest => exact ih.next ihrest .array hblank hblank'
  | member hname hblank hblank' h ih => exact ih.member hname hblank hblank'
  | lastMember hblank h ih => exact ih.last .object hblank
  | nextMember hblank h hblank' hrest ih ihrest => exact ih.next ihrest .object hblank hblank'

end Json

end JsonPull
