import JsonPull.Proofs.Lines.Count
import JsonPull.Proofs.Names.Character
import JsonPull.Proofs.Quotation.Tokenizer

/-! # Spellings of a name

A name of letters, digits, underscores and dollar signs may stand bare or in quotes of either kind. Each
spelling is read as the same name. -/

namespace JsonPull

open JsonPull.Json

variable {settings : Settings} {stream space rest : List UInt8} {s : State} {pos : Nat} {b : UInt8}
  {c : Char} {name : String}

/-- A name that may stand without quotes. -/
structure IsName (name : String) : Prop where
  ne_empty : name ≠ ""
  chars : ∀ c ∈ name.toList, Reading.isNameChar c = true

instance (name : String) : Decidable (IsName name) :=
  decidable_of_iff (name ≠ "" ∧ ∀ c ∈ name.toList, Reading.isNameChar c = true)
    ⟨fun h => ⟨h.1, h.2⟩, fun h => ⟨h.1, h.2⟩⟩

/-- The ways to spell a name. -/
inductive Spelling where
  | bare
  | double
  | single
deriving DecidableEq, Repr

/-- The quotes around a name. -/
def Spelling.mark? : Spelling → Option UInt8
  | bare => none
  | double => some 0x22
  | single => some 0x27

/-- The bytes of a name in a spelling. -/
def Spelling.write (name : String) (spelling : Spelling) : List UInt8 :=
  match spelling.mark? with
  | none => Text.toBytes name
  | some mark => mark :: (Text.toBytes name ++ [mark])

namespace IsName

theorem cons (h : IsName name) : ∃ c chars, name.toList = c :: chars ∧
    Reading.isNameChar c = true ∧ Text.toBytes name = Text.encode c ++ chars.flatMap Text.encode := by
  cases hchars : name.toList with
  | nil => exact absurd (String.toList_eq_nil_iff.mp hchars) h.ne_empty
  | cons c chars =>
      refine ⟨c, chars, rfl, h.chars c (by simp [hchars]), ?_⟩
      rw [Text.toBytes, hchars, List.flatMap_cons]

theorem plain (h : IsName name) (hb : b ∈ Text.toBytes name) : isPlain b = true := by
  obtain ⟨c, hc, hb⟩ := List.mem_flatMap.mp hb
  exact isPlain_of_mem_encode (h.chars c hc) hb

/-- However it is spelled, a name begins with no blank. -/
theorem inked (h : IsName name) (spelling : Spelling) (rest : List UInt8) :
    Inked (spelling.write name ++ rest) := by
  have hmark : ∀ mark : UInt8, Reading.Solid mark → ∀ rest, Inked (mark :: rest) :=
    fun mark hmark rest => (isSolid_cons hmark rest).inked
  cases spelling with
  | bare =>
      obtain ⟨c, chars, -, hc, hbytes⟩ := h.cons
      change Inked (Text.toBytes name ++ rest)
      rw [hbytes, List.append_assoc]
      exact inked_nameChar hc _
  | double => exact hmark _ ⟨by decide, rfl⟩ _
  | single => exact hmark _ ⟨by decide, rfl⟩ _

/-- However it is spelled, a name begins like no end of an object and no comment. -/
theorem head_write (h : IsName name) (spelling : Spelling) (rest : List UInt8) :
    ∃ b, (spelling.write name ++ rest).head? = some b ∧ b ≠ 0x7D ∧ b ≠ 0x2F ∧
      (some b).filter (fun b => b == 0x22 || b == 0x27) = spelling.mark? := by
  cases spelling with
  | bare =>
      obtain ⟨c, chars, -, -, hbytes⟩ := h.cons
      obtain ⟨b, tail, hencode⟩ := Text.encode_eq_cons c
      have hplain : isPlain b = true := h.plain (by simp [hbytes, hencode])
      refine ⟨b, ?_, ?_⟩
      · change (Text.toBytes name ++ rest).head? = some b
        rw [hbytes, hencode]
        rfl
      · simp only [isPlain, List.contains_cons, Bool.not_eq_true', Bool.or_eq_false_iff,
          beq_eq_false_iff_ne] at hplain
        simp [hplain, Spelling.mark?]
  | double | single => exact ⟨_, rfl, by decide, by decide, rfl⟩

theorem write_ne_nil (h : IsName name) (spelling : Spelling) : spelling.write name ≠ [] := by
  cases spelling with
  | bare =>
      obtain ⟨c, chars, -, -, hbytes⟩ := h.cons
      obtain ⟨b, tail, hencode⟩ := Text.encode_eq_cons c
      change Text.toBytes name ≠ []
      simp [hbytes, hencode]
  | double | single => exact List.cons_ne_nil _ _

/-- No name contains a line break. -/
theorem clear (h : IsName name) (spelling : Spelling) (hb : b ∈ spelling.write name) :
    isBreak b = false := by
  have hclear : b ∈ Text.toBytes name → isBreak b = false := by
    intro hb
    have hplain := h.plain hb
    rw [isBreak, Bool.or_eq_false_iff, beq_eq_false_iff_ne, beq_eq_false_iff_ne]
    constructor <;> rintro rfl <;> cases hplain
  cases spelling with
  | bare => exact hclear hb
  | double | single =>
      simp only [Spelling.write, Spelling.mark?, List.mem_cons, List.mem_append, List.not_mem_nil,
        or_false] at hb
      rcases hb with rfl | hb | rfl
      · rfl
      · exact hclear hb
      · rfl

/-- What is counted up to the colon are the line breaks around a name. -/
theorem lineBreaks_member (h : IsName name) (spelling : Spelling) (before space : List UInt8) :
    lineBreaks (before ++ (spelling.write name ++ (space ++ [0x3A]))) =
      lineBreaks before + lineBreaks space := by
  rw [lineBreaks_append, lineBreaks_clear_append fun _ => h.clear spelling, lineBreaks_append]
  · rfl
  · rintro ⟨-, hhead⟩
    cases hhead
  · rintro ⟨-, hhead⟩
    rw [List.head?_append_of_ne_nil _ (h.write_ne_nil spelling)] at hhead
    cases h.clear spelling (List.mem_of_head? hhead)

end IsName

/-- Blanks and a colon end a name. -/
theorem IsSpace.ends_name (h : IsSpace space) (rest : List UInt8) :
    ∃ c more, space ++ 0x3A :: rest = Text.encode c ++ more ∧ Reading.isNameChar c = false ∧
      (Text.isBlank c || c == ':') = true := by
  cases h with
  | nil => exact ⟨':', rest, rfl, by decide, by decide⟩
  | @blank c space hblank h =>
      refine ⟨c, space ++ 0x3A :: rest, List.append_assoc .., isNameChar_of_isBlank hblank, ?_⟩
      rw [hblank, Bool.true_or]

namespace Reading

theorem succeeds_bareName {chars : List Char} (hchars : ∀ c ∈ chars, isNameChar c = true)
    (hspace : IsSpace space) (h : Ahead stream pos (chars.flatMap Text.encode ++ (space ++ 0x3A :: rest))) :
    bareName.Succeeds settings stream s pos fun span s' pos' => s' = s ∧
      span = { first := pos, last := pos + (chars.flatMap Text.encode).length } ∧
        pos' = pos + (chars.flatMap Text.encode).length := by
  obtain ⟨c, more, hmore, hname, hends⟩ := hspace.ends_name rest
  rw [hmore] at h
  unfold bareName
  rw [succeeds_bind, succeeds_cursor]
  refine succeeds_chars hchars hname h fun _ => ?_
  rw [hends, if_pos rfl, succeeds_bind, succeeds_cursor, succeeds_bind, succeeds_hold, succeeds_pure]
  exact ⟨_, rfl, rfl, rfl, rfl⟩

/-- A name is read in each of its spellings. -/
theorem succeeds_nameText (hname : IsName name) (spelling : Spelling) (hspace : IsSpace space)
    (h : Ahead stream pos (spelling.write name ++ (space ++ 0x3A :: rest))) :
    (nameText spelling.mark?).Succeeds settings stream s pos fun text s' pos' =>
      text = name ∧ s.Same s' ∧ Ahead stream pos' (space ++ 0x3A :: rest) := by
  have hquoted : ∀ mark : UInt8, mark = 0x22 ∨ mark = 0x27 →
      Ahead stream pos (mark :: (Text.toBytes name ++ mark :: (space ++ 0x3A :: rest))) →
      (nameText (some mark)).Succeeds settings stream s pos fun text s' pos' =>
        text = name ∧ s.Same s' ∧ Ahead stream pos' (space ++ 0x3A :: rest) := by
    intro mark hmark h
    have hspells : Quotation.Spells mark ((Text.toBytes name).map .byte) (Text.toBytes name) := by
      refine Quotation.spells_bytes fun b hb => ?_
      have hplain := hname.plain hb
      constructor
      · rcases hmark with rfl | rfl <;> rintro rfl <;> cases hplain
      · rintro rfl
        cases hplain
    unfold nameText
    rw [succeeds_bind]
    refine (succeeds_quoted_spells hmark hspells h).mono ?_
    rintro body s' pos' ⟨hsame, hbody, ha⟩
    rw [succeeds_bodyText, hbody, Quotation.text_bytes, Text.ofBytes_toBytes]
    exact ⟨rfl, hsame, ha⟩
  cases spelling with
  | bare =>
      obtain ⟨c, chars, hlist, hc, hbytes⟩ := hname.cons
      change Ahead stream pos (Text.toBytes name ++ _) at h
      have hc' := h
      rw [hbytes, List.append_assoc] at hc'
      refine (succeeds_bind _ _).mpr ((succeeds_charAt?_encode hc').mpr ?_)
      dsimp only
      rw [hc, if_pos rfl, succeeds_bind, succeeds_settle, succeeds_bind]
      refine (succeeds_bareName hname.chars hspace h).mono ?_
      rintro _ _ _ ⟨rfl, rfl, rfl⟩
      have hslice : (stream.drop pos).take (Text.toBytes name).length = Text.toBytes name := h.slice
      rw [succeeds_textOf, Nat.add_sub_cancel_left]
      refine ⟨?_, .refl _, h.skip⟩
      rw [← Text.toBytes, hslice, Text.ofBytes_toBytes]
  | double | single =>
      refine hquoted _ (by decide) ?_
      rwa [Spelling.write, Spelling.mark?, List.cons_append, List.append_assoc] at h

end Reading

end JsonPull
