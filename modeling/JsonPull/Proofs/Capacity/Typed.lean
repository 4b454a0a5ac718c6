import JsonPull.Proofs.Capacity.Token

/-! # Typed reads of a plain stream

A typed read asks no more than a plain one, and ends where it ends. -/

namespace JsonPull.Reading

variable {stream rest bytes : List UInt8} {longest reach : Nat} {h : Horizon} {b : UInt8}
  {b? : Option UInt8} {α : Type}

theorem confined_unexpectedConsumed {post : α → Horizon → Prop} (hfaces : h.Faces stream b?)
    (hascii : ∀ b ∈ b?, b < 0x80) (site : CharSite) :
    (unexpectedConsumed site : Reading α).Confined stream reach h post :=
  (confined_foundAtCursor hfaces hascii).bind fun _ _ _ =>
    (confined_advance _).bind fun _ _ _ => .fail _

theorem confined_requestedNumber (request : Request) (hfaces : h.Faces stream (some b))
    (hbytes : ∀ b' ∈ bytes, Lexeme.isByte b' = true) (hend : Terminates rest)
    (hlength : bytes.length ≤ longest) (hascii : b < 0x80) (hahead : Ahead stream h.pos (bytes ++ rest)) :
    (requestedNumber request).Confined stream (longest + 8) h
      fun _ h' => Ahead stream h'.pos rest := by
  have hnumber := fun request => confined_numberValue request hbytes hend hlength hahead
  have hrefused : (unexpectedConsumed .value : Reading Unit).Confined stream (longest + 8) h
      fun _ h' => Ahead stream h'.pos rest := by
    refine confined_unexpectedConsumed hfaces ?_ _
    rintro _ ⟨⟩
    exact hascii
  unfold requestedNumber
  split
  · exact hrefused
  · exact hrefused
  · exact hrefused
  · exact (hnumber .plain).bind fun _ _ hr => .get_bind fun s => .update hr
  · exact hnumber request

theorem confined_convertText (request : Request) :
    (convertText request).Confined stream reach h fun _ h' => h' = h := by
  have htext : currentText.Confined stream reach h fun _ h' => h' = h := by
    refine .get_bind fun s => ?_
    split
    · exact confined_textOf _
    · exact .pure rfl
    · exact .pure rfl
  unfold convertText
  split
  · exact .pure rfl
  · refine htext.bind ?_
    rintro text _ rfl
    split
    · exact .update rfl
    · split
      · exact .update rfl
      · exact .fail _

theorem confined_endOfArray (hahead : Ahead stream h.pos (b :: rest)) :
    endOfArray.Confined stream reach h fun _ h' => Ahead stream h'.pos rest := by
  refine .get_bind fun s => ?_
  split
  · exact confined_closeContainer .array hahead
  · exact (confined_advance 1).bind fun _ _ _ => .fail _

theorem confined_elidedValue {post : Unit → Horizon → Prop} :
    elidedValue.Confined stream reach h post := by
  refine (confined_update _).bind ?_
  rintro _ h rfl
  refine .get_bind fun s => ?_
  have hpast : (past 1).Confined stream reach h fun _ _ => True := .ask trivial trivial
  exact hpast.bind fun _ _ _ => .throw _

theorem confined_byteArray (hplain : Plain longest (stream.drop h.pos)) :
    byteArray.Confined stream (longest + 8) h fun _ h' => Plain longest (stream.drop h'.pos) := by
  refine .repeating (fun _ h => Plain longest (stream.drop h.pos)) ?_ hplain
  intro bytes h hplain
  refine (confined_modify _).bind ?_
  rintro _ _ rfl
  refine (confined_token hplain).bind fun b h' hplain' => ?_
  generalize hrest : (get >>= _ : Reading (Turn (List UInt8) Unit)) = rest
  have hconfined : rest.Confined stream (longest + 8) h'
      (Confined.Stays (fun _ h => Plain longest (stream.drop h.pos))
        fun _ h' => Plain longest (stream.drop h'.pos)) := by
    subst hrest
    refine .get_bind fun s => ?_
    split
    · exact .fail _
    · split
      · split
        · exact .pure hplain'
        · exact .fail _
      · exact .fail _
    · refine (confined_update _).bind ?_
      rintro _ _ rfl
      exact .pure hplain'
    · exact .pure hplain'
    · exact .fail _
  dsimp only
  split
  · refine (confined_modify _).bind ?_
    rintro _ _ rfl
    exact hconfined
  · exact hconfined

theorem confined_requestedValue (request : Request) (hplain : Plain longest (stream.drop h.pos)) :
    (requestedValue request).Confined stream (longest + 8) h
      fun _ h' => Plain longest (stream.drop h'.pos) := by
  refine .repeating (fun _ h => Plain longest (stream.drop h.pos)) ?_ hplain
  intro _ h hplain
  refine (confined_skipBlanks (by omega) hplain).bind fun b? h' htoken => ?_
  cases b? with
  | none => exact .map ((confined_modify _).mono fun _ _ hr => hr ▸ htoken.plain)
  | some b =>
      have hascii := htoken.ascii b rfl
      have hbegins := htoken.begins b rfl
      generalize hahead : stream.drop h'.pos = bytes at hbegins
      have hahead : Ahead stream h'.pos bytes := hahead
      have hother : (Turn.stop <$> (unexpectedConsumed .value : Reading Unit) :
          Reading (Turn Unit Unit)).Confined stream (longest + 8) h'
            (Confined.Stays (fun _ h => Plain longest (stream.drop h.pos))
              fun _ h' => Plain longest (stream.drop h'.pos)) :=
        .map (confined_unexpectedConsumed htoken.faces htoken.ascii _)
      dsimp only
      cases hbegins with
      | mark hmark hrest =>
          rcases lead_mark hmark with ⟨container, hlead⟩ | ⟨container, hlead⟩ | hlead | ⟨hlead, -⟩
          · rw [hlead]
            cases container with
            | array =>
                dsimp only
                split
                · refine .map ((confined_advance 1).bind ?_)
                  rintro _ _ rfl
                  refine (confined_openContainer .array .empty).bind ?_
                  rintro _ _ rfl
                  exact confined_byteArray (hrest.ahead hahead.tail)
                · exact hother
            | object => exact hother
            | constructor => exact hother
          · rw [hlead]
            cases container with
            | array => exact .map ((confined_endOfArray hahead).mono fun _ _ hr => hrest.ahead hr)
            | object => exact hother
            | constructor => exact hother
          · rw [hlead]
            exact .map confined_elidedValue
          · rw [hlead]
            exact hother
      | number hfirst hbytes hend hlength hrest =>
          rw [(lead_number hfirst).1]
          exact .map ((confined_requestedNumber request htoken.faces hbytes hend hlength hascii
            hahead).mono fun _ _ hr => hrest.ahead hr)
      | name hlead =>
          rw [hlead]
          exact hother
      | quoted hquote hbody hlength hrest =>
          rw [(lead_quote hquote).1]
          refine .map ((confined_stringValue request hquote hbody hlength hahead).bind
            fun _ h₁ hr => ?_)
          refine (confined_convertText request).mono ?_
          rintro _ _ rfl
          exact hrest.ahead hr

theorem confined_requestedPart (request : Request) (hplain : Plain longest (stream.drop h.pos)) :
    (requestedPart request).Confined stream (longest + 8) h
      fun _ h' => Plain longest (stream.drop h'.pos) := by
  refine .get_bind fun s => ?_
  dsimp only
  split
  · exact confined_requestedValue request hplain
  · split
    · exact (confined_epilogue false hplain).bind fun _ _ hr => .pure hr
    · exact .pure hplain
    · exact .fail _

theorem confined_requested (request : Request) (hplain : Plain longest (stream.drop h.pos)) :
    (requested request).Confined stream (longest + 8) h
      fun _ h' => Plain longest (stream.drop h'.pos) := by
  refine .get_bind fun s => ?_
  split
  · refine (confined_separator false hplain).bind fun b h' hplain' => ?_
    split
    · exact .pure hplain'
    · exact confined_requestedPart request hplain'
  · exact confined_requestedPart request hplain

end JsonPull.Reading
