import JsonPull.Proofs.Json.Structure
import JsonPull.Proofs.Tokenizer.Whole

/-! # Parts of documents

A part of a text gives its tokens wherever it is awaited, and leaves the containers around it as
they were. What a whole part gives follows from what its own parts give. -/

namespace JsonPull

open JsonPull.Json

variable {settings : Settings} {stream blank text rest : List UInt8} {phase : Phase}
  {kinds : List Container}

namespace Whole

/-! ## Runs of reads -/

variable {r r₁ r₂ : Whole} {tokens tokens' : List (Token × Option Value)}

/-- Reads that find these tokens one after another. -/
def Produces (settings : Settings) (stream : List UInt8) :
    Whole → List (Token × Option Value) → Whole → Prop
  | r, [], r' => r = r'
  | r, (token, value) :: tokens, r' => ∃ r₁, r.call settings stream .read = (.ok (.found true), r₁) ∧
      r₁.state.token = token ∧ r₁.value? stream = value ∧ r₁.Produces settings stream tokens r'

theorem Produces.append (h : r.Produces settings stream tokens r₁)
    (h' : r₁.Produces settings stream tokens' r₂) :
    r.Produces settings stream (tokens ++ tokens') r₂ := by
  induction tokens generalizing r with
  | nil =>
      cases h
      exact h'
  | cons token tokens ih =>
      obtain ⟨r', hcall, htoken, hvalue, hrest⟩ := h
      exact ⟨r', hcall, htoken, hvalue, ih hrest⟩

theorem call_of_succeeds {post : Bool → State → Nat → Prop}
    (h : Reading.token.Succeeds settings stream r.state.clearSlot r.cursor post) :
    ∃ found r', r.call settings stream .read = (.ok (.found found), r') ∧
      post found r'.state r'.cursor := by
  have hnext : Tokenizer.next.Succeeds settings stream r.state r.cursor post := by
    unfold Tokenizer.next
    rw [Reading.succeeds_bind, Reading.succeeds_modify]
    exact h
  obtain ⟨found, s', pos', hrun, hpost⟩ := hnext.run
  refine ⟨found, ⟨s', pos'⟩, ?_, hpost⟩
  unfold Whole.call Whole.run
  dsimp only
  rw [hrun]
  rfl

/-- Reads find these tokens and end in this phase, with these containers open, before `rest`. -/
def Reaches (settings : Settings) (stream : List UInt8) (r : Whole)
    (tokens : List (Token × Option Value)) (phase : Phase) (kinds : List Container)
    (rest : List UInt8) : Prop :=
  ∃ r', r.Produces settings stream tokens r' ∧ Stands stream phase kinds rest r'.state r'.cursor

theorem reaches_of_succeeds {token : Token} {value : Option Value}
    (h : Reading.token.Succeeds settings stream r.state.clearSlot r.cursor
      (Stops stream token value phase kinds rest)) :
    r.Reaches settings stream [(token, value)] phase kinds rest := by
  obtain ⟨found, r', hcall, hstops⟩ := call_of_succeeds h
  rw [hstops.found_eq] at hcall
  exact ⟨r', ⟨r', hcall, hstops.token_eq, hstops.value_eq, rfl⟩, hstops.stands⟩

theorem Reaches.append {phase' : Phase} {kinds' : List Container} {rest' : List UInt8}
    (h : r.Reaches settings stream tokens phase kinds rest)
    (h' : ∀ r' : Whole, Stands stream phase kinds rest r'.state r'.cursor →
      r'.Reaches settings stream tokens' phase' kinds' rest') :
    r.Reaches settings stream (tokens ++ tokens') phase' kinds' rest' := by
  obtain ⟨r₁, hproduces, hstands⟩ := h
  obtain ⟨r₂, hproduces', hstands'⟩ := h' r₁ hstands
  exact ⟨r₂, hproduces.append hproduces', hstands'⟩

end Whole

namespace Json

/-- So many containers may be nested. -/
def Allows (settings : Settings) (depth : Nat) : Prop :=
  ∀ limit, settings.maxDepth = some limit → depth ≤ limit

theorem Allows.mono {depth depth' : Nat} (h : Allows settings depth) (hle : depth' ≤ depth) :
    Allows settings depth' :=
  fun limit hlimit => hle.trans (h limit hlimit)

theorem Allows.max {outer depth depth' : Nat} (h : Allows settings (outer + depth))
    (h' : Allows settings (outer + depth')) : Allows settings (outer + Max.max depth depth') := by
  intro limit hlimit
  have hle := h limit hlimit
  have hle' := h' limit hlimit
  omega

/-- Where a part of a text may stand. -/
def Shape.Fits : Shape → Phase → List Container → Prop
  | value, phase, _ => phase.expectsValue = true
  | items, phase, kinds =>
    (phase = .opened .array ∨ phase = .within .array) ∧ kinds.head? = some .array
  | member, phase, kinds | members, phase, kinds =>
    (phase = .opened .object ∨ phase = .within .object) ∧ kinds.head? = some .object

/-- A part of a text gives these tokens wherever it may stand, if so many containers more may be
nested. -/
def Reads (settings : Settings) (stream : List UInt8) (shape : Shape)
    (tokens : List (Token × Option Value)) (depth : Nat) (text : List UInt8) : Prop :=
  ∀ ⦃r : Whole⦄ ⦃phase kinds blank rest⦄, shape.Fits phase kinds → IsBlank blank →
    EndsWord phase rest → Allows settings (kinds.length + depth) →
    Reading.Awaits settings stream phase kinds (blank ++ (text ++ rest)) r.state.clearSlot
      r.cursor →
    r.Reaches settings stream tokens (completed settings kinds) kinds rest

variable {r : Whole} {kind : Scalar} {value : Option Value} {b : UInt8} {x : Reading Unit}

/-! ## Scalars -/

theorem reaches_scalar {more : List UInt8} (hphase : phase.expectsValue = true)
    (hblank : IsBlank blank) (htext : text = b :: more)
    (hlead : Reading.announced? (Lead.ofByte b) = some x)
    (hsolid : b < 0x80 ∧ Text.isBlankByte b = false)
    (h : Reading.Awaits settings stream phase kinds (blank ++ (text ++ rest)) r.state.clearSlot
      r.cursor)
    (hx : ∀ s pos, Stands stream phase kinds (text ++ rest) s pos →
      x.Succeeds settings stream s pos fun _ => Published settings stream kind value rest s) :
    r.Reaches settings stream [(.scalar kind, value)] (completed settings kinds) kinds rest :=
  Whole.reaches_of_succeeds
    (Reading.succeeds_token_scalar hphase hblank htext hlead hsolid h hx)

theorem reads_null :
    Reads settings stream .value [(.scalar .null, none)] 0 [0x6E, 0x75, 0x6C, 0x6C] := by
  intro r phase kinds blank rest hphase hblank hend _ h
  refine reaches_scalar hphase hblank rfl rfl (by decide) h fun s pos hs => ?_
  have hbyte : stream[pos + 1]? = some 0x75 := hs.ahead.getElem? 1
  rw [Reading.nullOrConstructor, Reading.succeeds_bind, Reading.succeeds_byte?, hbyte]
  exact Reading.succeeds_nullValue (hs.phase_eq ▸ hend) hs.ahead

theorem reads_boolean (b : Bool) :
    Reads settings stream .value [(.scalar .boolean, some (.boolean b))] 0 (Reading.wordOf b) := by
  intro r phase kinds blank rest hphase hblank hend _ h
  cases b
  · refine reaches_scalar hphase hblank rfl rfl (by decide) h fun s pos hs => ?_
    exact Reading.succeeds_booleanValue (hs.phase_eq ▸ hend) hs.ahead
  · refine reaches_scalar hphase hblank rfl rfl (by decide) h fun s pos hs => ?_
    exact Reading.succeeds_booleanValue (hs.phase_eq ▸ hend) hs.ahead

theorem reads_string {string : String} (hquotes : Quotes text string) :
    Reads settings stream .value [(.scalar (Reading.textEntry settings.dates string).1,
      some (Reading.textEntry settings.dates string).2)] 0 text := by
  intro r phase kinds blank rest hphase hblank hend _ h
  obtain ⟨more, htext⟩ : ∃ more, text = 0x22 :: more := by
    cases hquotes
    exact ⟨_, rfl⟩
  refine reaches_scalar hphase hblank htext rfl (by decide) h fun s pos hs => ?_
  exact Reading.succeeds_stringValue hquotes hs.ahead

theorem digit_cases (hb : 0x30 ≤ b ∧ b ≤ 0x39) :
    Lead.ofByte b = .number ∧ (b < 0x80 ∧ Text.isBlankByte b = false) ∧ b ≠ 0x49 := by
  have hdigit : ∀ d, d < 10 → Lead.ofByte (UInt8.ofNat (0x30 + d)) = .number ∧
      (UInt8.ofNat (0x30 + d) < 0x80 ∧ Text.isBlankByte (UInt8.ofNat (0x30 + d)) = false) ∧
      UInt8.ofNat (0x30 + d) ≠ 0x49 := by
    decide
  have hle : 0x30 ≤ b.toNat := UInt8.le_iff_toNat_le.mp hb.1
  have hge : b.toNat ≤ 0x39 := UInt8.le_iff_toNat_le.mp hb.2
  have heq : UInt8.ofNat (0x30 + (b.toNat - 0x30)) = b := by
    rw [Nat.add_sub_cancel' hle, UInt8.ofNat_toNat]
  have hb := hdigit (b.toNat - 0x30) (by omega)
  rwa [heq] at hb

theorem reads_number {v : Value} (hnumber : IsNumber text)
    (hconvert : Lexeme.convert settings .plain text = .ok (some v)) :
    Reads settings stream .value [(.scalar (Lexeme.kind v), some v)] 0 text := by
  intro r phase kinds blank rest hphase hblank hend _ h
  have hvalue : ∀ s pos, Stands stream phase kinds (text ++ rest) s pos →
      (Reading.numberValue .plain).Succeeds settings stream s pos
        fun _ => Published settings stream (Lexeme.kind v) (some v) rest s := fun s pos hs =>
    (Reading.succeeds_numberValue (isByte_number hnumber) hend.terminates hs.ahead).mpr
      ⟨v, hconvert, Reading.published_number v hs.ahead⟩
  obtain ⟨b, more, hb, htext | htext⟩ := begin_number hnumber
  · obtain ⟨hlead, hsolid, -⟩ := digit_cases hb
    exact reaches_scalar hphase hblank htext (by rw [hlead]; rfl) hsolid h hvalue
  · obtain ⟨-, -, hne⟩ := digit_cases hb
    refine reaches_scalar hphase hblank htext rfl (by decide) h fun s pos hs => ?_
    have hminus : Ahead stream pos (0x2D :: b :: (more ++ rest)) := by
      have hahead := hs.ahead
      rw [htext] at hahead
      exact hahead
    exact (Reading.succeeds_negativeValue hne hminus).mpr (hvalue s pos hs)

/-! ## Containers -/

theorem isEnd_comma (hblank : IsBlank blank) (rest : List UInt8) :
    IsEnd (blank ++ 0x2C :: rest) :=
  hblank.isEnd_append (by rintro b ⟨⟩; decide)

theorem isEnd_mark (c : Container) (hc : c ≠ .constructor) (hblank : IsBlank blank)
    (rest : List UInt8) : IsEnd (blank ++ Reading.mark c :: rest) := by
  apply hblank.isEnd_append
  rintro b ⟨⟩
  cases c
  · decide
  · decide
  · exact absurd rfl hc

theorem reaches_opening {c : Container} (hlead : Lead.ofByte b = .opening c)
    (hsolid : b < 0x80 ∧ Text.isBlankByte b = false) (hphase : phase.expectsValue = true)
    (hblank : IsBlank blank) (hdepth : Allows settings (kinds.length + 1))
    (h : Reading.Awaits settings stream phase kinds (blank ++ b :: rest) r.state.clearSlot
      r.cursor) :
    r.Reaches settings stream [(.opening c, none)] (.opened c) (c :: kinds) rest := by
  obtain ⟨s', pos', hstops, hiff⟩ := h.opening hphase hblank hlead hsolid
  exact Whole.reaches_of_succeeds ((hiff _).mpr ⟨hdepth, hstops⟩)

theorem reaches_closing {c : Container} (hblank : IsBlank blank)
    (h : Stands stream .postValue (c :: kinds) (blank ++ Reading.mark c :: rest) r.state r.cursor) :
    r.Reaches settings stream [(.closing c, none)] (completed settings kinds) kinds rest :=
  Whole.reaches_of_succeeds (Reading.succeeds_token_close hblank h.clearSlot)

/-- The byte that opens a container of JSON, the container, and the shapes of what it holds and of one
part of that. -/
inductive Encloses : UInt8 → Container → Shape → Shape → Prop where
  | array : Encloses 0x5B .array .items .value
  | object : Encloses 0x7B .object .members .member

namespace Encloses

variable {b : UInt8} {c : Container} {whole part : Shape}

theorem lead (h : Encloses b c whole part) : Lead.ofByte b = .opening c := by
  cases h <;> rfl

theorem solid (h : Encloses b c whole part) : b < 0x80 ∧ Text.isBlankByte b = false := by
  cases h <;> decide

theorem ne_constructor (h : Encloses b c whole part) : c ≠ .constructor := by
  cases h <;> nofun

theorem ne_value (h : Encloses b c whole part) : whole ≠ .value := by
  cases h <;> nofun

theorem fits_opened (h : Encloses b c whole part) (kinds : List Container) :
    whole.Fits (.opened c) (c :: kinds) := by
  cases h <;> exact ⟨.inl rfl, rfl⟩

theorem fits_within (h : Encloses b c whole part) (kinds : List Container) :
    whole.Fits (.within c) (c :: kinds) := by
  cases h <;> exact ⟨.inr rfl, rfl⟩

theorem fits_part (h : Encloses b c whole part) (hfits : whole.Fits phase kinds) :
    part.Fits phase kinds := by
  cases h
  · rcases hfits.1 with rfl | rfl <;> rfl
  · exact hfits

theorem outside (h : Encloses b c whole part) (hfits : whole.Fits phase kinds) :
    phase.inConstructor = false := by
  cases h <;> rcases hfits.1 with rfl | rfl <;> rfl

theorem kinds_eq (h : Encloses b c whole part) (hfits : whole.Fits phase kinds) :
    ∃ outer, kinds = c :: outer := by
  cases h <;> exact List.head?_eq_some_iff.mp hfits.2

end Encloses

variable {c : Container} {whole part : Shape} {tokens tokens' : List (Token × Option Value)}
  {depth depth' : Nat} {blank' inner : List UInt8}

theorem reads_empty (hencloses : Encloses b c whole part) (hblank : IsBlank blank) :
    Reads settings stream .value [(.opening c, none), (.closing c, none)] 1
      (b :: (blank ++ [Reading.mark c])) := by
  intro r phase kinds blank' rest hphase hblank' _ hdepth h
  simp only [List.cons_append, List.append_assoc, List.nil_append] at h
  have hopening := reaches_opening hencloses.lead hencloses.solid hphase hblank' hdepth h
  refine hopening.append fun r' h' => Whole.reaches_of_succeeds ?_
  cases hencloses with
  | array =>
      exact (Reading.awaits_part h'.clearSlot nofun).closeElements nofun rfl hblank.isSpace
  | object => exact Reading.succeeds_token_closeObject hblank h'.clearSlot

/-- A container is read from its opening to its closing mark. -/
theorem Reads.enclosed (h : Reads settings stream whole tokens depth inner)
    (hencloses : Encloses b c whole part) (hblank : IsBlank blank) :
    Reads settings stream .value ((.opening c, none) :: tokens ++ [(.closing c, none)]) (depth + 1)
      (b :: (inner ++ (blank ++ [Reading.mark c]))) := by
  intro r phase kinds blank' rest hphase hblank' _ hdepth hawaits
  simp only [List.cons_append, List.append_assoc, List.nil_append] at hawaits
  rw [Nat.add_comm depth, ← Nat.add_assoc] at hdepth
  have hopening := reaches_opening hencloses.lead hencloses.solid hphase hblank'
    (hdepth.mono (Nat.le_add_right _ _)) hawaits
  have hinner := hopening.append fun r' h' =>
    h (hencloses.fits_opened kinds) isBlank_nil
      ((isEnd_mark c hencloses.ne_constructor hblank rest).endsWord _) hdepth
      (Reading.awaits_part h'.clearSlot nofun)
  exact hinner.append fun r' h' => reaches_closing hblank h'

theorem Reads.last (h : Reads settings stream part tokens depth text)
    (hencloses : Encloses b c whole part) (hblank : IsBlank blank) :
    Reads settings stream whole tokens depth (blank ++ text) := by
  intro r phase kinds blank' rest hfits hblank' hend hdepth hawaits
  rw [List.append_assoc, ← List.append_assoc] at hawaits
  exact h (hencloses.fits_part hfits) (hblank'.append hblank) hend hdepth hawaits

theorem Reads.next (h : Reads settings stream part tokens depth text)
    (hrest : Reads settings stream whole tokens' depth' inner) (hencloses : Encloses b c whole part)
    (hblank : IsBlank blank) (hblank' : IsBlank blank') :
    Reads settings stream whole (tokens ++ tokens') (max depth depth')
      (blank ++ (text ++ (blank' ++ 0x2C :: inner))) := by
  intro r phase kinds blank₁ rest hfits hblank₁ hend hdepth hawaits
  obtain ⟨outer, rfl⟩ := hencloses.kinds_eq hfits
  simp only [List.append_assoc, List.cons_append] at hawaits
  rw [← List.append_assoc] at hawaits
  have hpart := h (hencloses.fits_part hfits) (hblank₁.append hblank)
    ((isEnd_comma hblank' _).endsWord _)
    (hdepth.mono (Nat.add_le_add_left (Nat.le_max_left _ _) _)) hawaits
  exact hpart.append fun r' h' =>
    hrest (hencloses.fits_within outer) isBlank_nil
      (hend.of_not_inConstructor (hencloses.outside hfits))
      (hdepth.mono (Nat.add_le_add_left (Nat.le_max_right _ _) _))
      (Reading.awaits_comma hblank' h'.clearSlot)

theorem Reads.member {name : String} {quoted : List UInt8}
    (h : Reads settings stream .value tokens depth text) (hname : Quotes quoted name)
    (hblank : IsBlank blank) (hblank' : IsBlank blank') :
    Reads settings stream .member
      ((.propertyName, some (.string (settings.intern name))) :: tokens) depth
      (quoted ++ (blank ++ 0x3A :: (blank' ++ text))) := by
  intro r phase kinds blank₁ rest hfits hblank₁ hend hdepth hawaits
  simp only [List.append_assoc, List.cons_append] at hawaits
  have hproperty := Whole.reaches_of_succeeds
    (Reading.succeeds_token_name hfits.1 hname hblank₁ hblank hawaits)
  have hvalue : Shape.value.Fits .property kinds := rfl
  have hend' : EndsWord .property rest := hend.of_not_inConstructor (Encloses.object.outside hfits)
  exact hproperty.append fun r' h' =>
    h hvalue hblank' hend' hdepth (Reading.awaits_part h'.clearSlot nofun)

end Json

end JsonPull
