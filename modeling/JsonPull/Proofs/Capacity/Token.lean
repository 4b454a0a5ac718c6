import JsonPull.Proofs.Capacity.Scanning

/-! # Tokens of a plain stream

A call at a token of a plain stream asks questions in reach only. If it succeeds, it ends at the next
token. -/

namespace JsonPull.Reading

variable {stream rest bytes : List UInt8} {longest reach : Nat} {h : Horizon} {b : UInt8}

/-! ## Parts -/

theorem confined_found {x : Reading Unit} {σ : Type} {inv : σ → Horizon → Prop}
    {post : Bool → Horizon → Prop} (hx : x.Confined stream reach h fun _ h' => post true h') :
    (found x : Reading (Turn σ Bool)).Confined stream reach h (Confined.Stays inv post) :=
  hx.bind fun _ _ hpost => .pure hpost

theorem confined_openContainer (container : Container) (slot : Slot) :
    (openContainer container slot).Confined stream reach h fun _ h' => h' = h := by
  refine (confined_modify _).bind ?_
  rintro _ _ rfl
  refine .read_bind fun settings => ?_
  split
  · refine .get_bind fun s => ?_
    split
    · exact .fail _
    · exact .pure rfl
  · exact .pure rfl

/-- A container is closed behind its mark. -/
theorem confined_closeContainer (container : Container) (hahead : Ahead stream h.pos (b :: rest)) :
    (closeContainer container).Confined stream reach h fun _ h' => Ahead stream h'.pos rest := by
  refine (confined_advance 1).bind ?_
  rintro _ _ rfl
  refine .get_bind fun s => ?_
  refine (confined_modify _).bind ?_
  rintro _ _ rfl
  split
  · exact .update hahead.tail
  · exact .fail _

/-- A mark announces a container, its end, or what stands between elements. -/
theorem lead_mark (hmark : b ∈ marks) : (∃ container, Lead.ofByte b = .opening container) ∨
    (∃ container, Lead.ofByte b = .closing container) ∨ Lead.ofByte b = .comma ∨
      Lead.ofByte b = .other ∧ b = 0x3A := by
  simp only [marks, List.mem_cons, List.not_mem_nil, or_false] at hmark
  rcases hmark with rfl | rfl | rfl | rfl | rfl | rfl
  · exact .inl ⟨_, rfl⟩
  · exact .inr (.inl ⟨_, rfl⟩)
  · exact .inl ⟨_, rfl⟩
  · exact .inr (.inl ⟨_, rfl⟩)
  · exact .inr (.inr (.inl rfl))
  · exact .inr (.inr (.inr ⟨rfl, rfl⟩))

/-- What announces no value is refused in its place. -/
theorem confined_otherValue {post : Unit → Horizon → Prop} (htoken : h.AtToken longest stream (some b))
    (hlead : Lead.ofByte b = .other) : otherValue.Confined stream reach h post := by
  have hascii := htoken.ascii b rfl
  have hlt : b.toNat < 0x80 := UInt8.lt_iff_toNat_lt.mp hascii
  have hval : (Char.ofNat b.toNat).val.toNat = b.toNat := Text.toNat_ofByte hascii
  have hnumeric : Text.isNumeric (Char.ofNat b.toNat) = false := by
    rw [Text.isNumeric, Text.inRanges_ascii _ (by rwa [Text.toNat_ofByte hascii]), Bool.or_false]
    by_contra hdigit
    have hfirst : Number.isDigit b = true := by
      simpa [Char.isDigit, Number.isDigit, UInt32.le_iff_toNat_le, UInt8.le_iff_toNat_le, hval]
        using hdigit
    rw [(lead_number (.inl hfirst)).1] at hlead
    cases hlead
  refine (confined_charAt?_faced htoken.faces htoken.ascii).bind ?_
  rintro _ h' ⟨rfl, -, hfaces⟩
  dsimp only [Option.map_some]
  rw [hnumeric, if_neg Bool.false_ne_true]
  exact confined_unexpected hfaces htoken.ascii _

/-- A read of a value in a plain stream ends in one, and is confined. -/
theorem confined_value (hplain : Plain longest (stream.drop h.pos)) :
    value.Confined stream (longest + 8) h fun _ h' => Plain longest (stream.drop h'.pos) := by
  refine .repeating (fun _ h => Plain longest (stream.drop h.pos)) ?_ hplain
  intro _ h hplain
  refine (confined_skipBlanks (by omega) hplain).bind fun b? h' htoken => ?_
  cases b? with
  | none =>
      refine (confined_modify _).bind ?_
      rintro _ _ rfl
      exact .pure htoken.plain
  | some b =>
      have hbegins := htoken.begins b rfl
      generalize hahead : stream.drop h'.pos = bytes at hbegins
      have hahead : Ahead stream h'.pos bytes := hahead
      cases hbegins with
      | mark hmark hrest =>
          dsimp only
          rcases lead_mark hmark with ⟨container, hlead⟩ | ⟨container, hlead⟩ | hlead | ⟨hlead, rfl⟩
          · rw [hlead]
            refine confined_found ((confined_advance 1).bind ?_)
            rintro _ _ rfl
            refine (confined_openContainer container .empty).mono ?_
            rintro _ _ rfl
            exact hrest.ahead hahead.tail
          · rw [hlead]
            have hclose : (closeContainer container).Confined stream (longest + 8) h'
                fun _ h' => Plain longest (stream.drop h'.pos) :=
              (confined_closeContainer container hahead).mono fun _ _ hr => hrest.ahead hr
            cases container with
            | object => exact confined_found (confined_unexpected htoken.faces htoken.ascii _)
            | array => exact confined_found hclose
            | constructor => exact confined_found hclose
          · rw [hlead]
            exact confined_found (.update htoken.plain)
          · rw [hlead]
            exact confined_found (confined_otherValue htoken hlead)
      | number hfirst hbytes hend hlength hrest =>
          dsimp only
          rw [(lead_number hfirst).1]
          exact confined_found ((confined_numberValue .plain hbytes hend hlength hahead).mono
            fun _ _ hr => hrest.ahead hr)
      | name hlead =>
          dsimp only
          rw [hlead]
          exact confined_found (confined_otherValue htoken hlead)
      | quoted hquote hbody hlength hrest =>
          dsimp only
          rw [(lead_quote hquote).1]
          exact confined_found ((confined_stringValue .plain hquote hbody hlength hahead).mono
            fun _ _ hr => hrest.ahead hr)

/-- A name is read with its colon. -/
theorem confined_property (htoken : h.AtToken longest stream (some b)) :
    property.Confined stream (longest + 8) h fun _ h' => Plain longest (stream.drop h'.pos) := by
  refine (confined_byte?_faced htoken.faces).bind ?_
  rintro _ h₁ ⟨rfl, hpos, hfaces⟩
  have htoken₁ : h₁.AtToken longest stream (some b) := ⟨hfaces, hpos ▸ htoken.begins⟩
  refine .read_bind fun settings => (confined_nameText htoken₁).bind fun name h₂ hplain => ?_
  refine (confined_skipBlanks (by omega) hplain).bind fun b? h₃ htoken₃ => ?_
  split
  · rename_i hcolon
    obtain rfl : b? = some 0x3A := by simpa using hcolon
    obtain ⟨rest, hahead, hrest⟩ := (htoken₃.begins 0x3A rfl).tail (by decide)
    refine (confined_advance 1).bind ?_
    rintro _ _ rfl
    exact .modify (hrest.ahead (Ahead.tail hahead))
  · exact confined_unexpected htoken₃.faces htoken₃.ascii _

theorem confined_member (hplain : Plain longest (stream.drop h.pos)) :
    member.Confined stream (longest + 8) h fun _ h' => Plain longest (stream.drop h'.pos) := by
  refine .repeating (fun _ h => Plain longest (stream.drop h.pos)) ?_ hplain
  intro _ h hplain
  refine (confined_skipBlanks (by omega) hplain).bind fun b? h' htoken => ?_
  split
  · refine (confined_modify _).bind ?_
    rintro _ _ rfl
    exact .pure htoken.plain
  · obtain ⟨rest, hahead, hrest⟩ := (htoken.begins 0x7D rfl).tail (by decide)
    exact confined_found ((confined_closeContainer .object hahead).mono fun _ _ hr => hrest.ahead hr)
  · exact absurd rfl (htoken.begins 0x2F rfl).ne_slash
  · exact confined_found (confined_property htoken)

theorem confined_separator (surface : Bool) (hplain : Plain longest (stream.drop h.pos)) :
    (separator surface).Confined stream (longest + 8) h
      fun _ h' => Plain longest (stream.drop h'.pos) := by
  refine .repeating (fun _ h => Plain longest (stream.drop h.pos)) ?_ hplain
  intro _ h hplain
  refine (confined_skipBlanks (by omega) hplain).bind fun b? h' htoken => ?_
  cases b? with
  | none =>
      refine (confined_modify _).bind ?_
      rintro _ _ rfl
      exact .pure htoken.plain
  | some b =>
      have hother : (do
          if (← read).multipleValues && (← get).frames.isEmpty then
            update State.resumeContainer
            return .stop false
          else unexpected .afterValue : Reading (Turn Unit Bool)).Confined stream (longest + 8) h'
            (Confined.Stays (fun _ h => Plain longest (stream.drop h.pos))
              fun _ h' => Plain longest (stream.drop h'.pos)) := by
        refine .read_bind fun settings => .get_bind fun s => ?_
        split
        · refine (confined_update _).bind ?_
          rintro _ _ rfl
          exact .pure htoken.plain
        · exact confined_unexpected htoken.faces htoken.ascii _
      have hbegins := htoken.begins b rfl
      generalize hahead : stream.drop h'.pos = bytes at hbegins
      have hahead : Ahead stream h'.pos bytes := hahead
      dsimp only
      cases hbegins with
      | mark hmark hrest =>
          rcases lead_mark hmark with ⟨container, hlead⟩ | ⟨container, hlead⟩ | hlead | ⟨hlead, -⟩
          · rw [hlead]
            exact hother
          · rw [hlead]
            exact confined_found ((confined_closeContainer container hahead).mono
              fun _ _ hr => hrest.ahead hr)
          · rw [hlead]
            refine (confined_advance 1).bind ?_
            rintro _ _ rfl
            refine (confined_update _).bind ?_
            rintro _ _ rfl
            exact .pure (hrest.ahead hahead.tail)
          · rw [hlead]
            exact hother
      | number hfirst =>
          rw [(lead_number hfirst).1]
          exact hother
      | name hlead =>
          rw [hlead]
          exact hother
      | quoted hquote =>
          rw [(lead_quote hquote).1]
          exact hother

theorem confined_epilogue (surface : Bool) (hplain : Plain longest (stream.drop h.pos)) :
    (epilogue surface).Confined stream (longest + 8) h
      fun _ h' => Plain longest (stream.drop h'.pos) := by
  refine .repeating (fun _ h => Plain longest (stream.drop h.pos)) ?_ hplain
  intro _ h hplain
  refine (confined_skipBlanks (by omega) hplain).bind fun b? h' htoken => ?_
  split
  · refine (confined_modify _).bind ?_
    rintro _ _ rfl
    exact .pure htoken.plain
  · exact absurd rfl (htoken.begins 0x2F rfl).ne_slash
  · exact confined_unexpected htoken.faces htoken.ascii _

theorem confined_part (hplain : Plain longest (stream.drop h.pos)) :
    part.Confined stream (longest + 8) h fun _ h' => Plain longest (stream.drop h'.pos) := by
  refine .get_bind fun s => ?_
  split
  · exact confined_value hplain
  · exact confined_value hplain
  · exact confined_member hplain
  · exact confined_member hplain
  · exact confined_value hplain
  · exact confined_value hplain
  · exact .read_bind fun settings => confined_epilogue _ hplain
  · exact .pure hplain
  · exact .fail _

/-- All questions of a read at a token of a plain stream are in reach, and it ends at the next. -/
theorem confined_token (hplain : Plain longest (stream.drop h.pos)) :
    token.Confined stream (longest + 8) h fun _ h' => Plain longest (stream.drop h'.pos) := by
  refine .get_bind fun s => ?_
  split
  · refine .read_bind fun settings => (confined_separator _ hplain).bind fun b h' hplain' => ?_
    split
    · exact .pure hplain'
    · exact confined_part hplain'
  · exact confined_part hplain

end JsonPull.Reading
