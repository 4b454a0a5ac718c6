import JsonPull.Proofs.Json.Parts

/-! # Documents of JSON

Whatever text of a document is read, its tokens are those of the document. The induction is on the
text: each part of it is read where it is awaited, and leaves the containers around it as they
were. -/

namespace JsonPull

open JsonPull.Json JsonPull.Reading

variable {settings : Settings} {stream blank text rest : List UInt8} {phase : Phase}
  {kinds : List Container}

namespace Json

/-- Settings under which every value of JSON is read as what it is. -/
structure Plain (settings : Settings) : Prop where
  dates : settings.dates = .none
  floats : settings.floats = .double
  bigIntegers : settings.bigIntegers = false
  intern : ∀ name, settings.intern name = name

/-! ## Parts of documents -/

namespace Piece

def shape : Piece → Shape
  | value _ => .value
  | items _ => .items
  | member _ _ => .member
  | members _ => .members

/-- The tokens of a part of a document, each with its value. -/
def tokens : Piece → List (Token × Option Value)
  | value doc => doc.tokens
  | items docs => itemTokens docs
  | member name doc => (.propertyName, some (.string name)) :: doc.tokens
  | members ms => memberTokens ms

/-- How deep the containers of a part are nested. -/
def nesting : Piece → Nat
  | value doc => doc.nesting
  | items docs => itemNesting docs
  | member _ doc => doc.nesting
  | members ms => memberNesting ms

end Piece

/-- Every part of a document is read as what it is. -/
theorem Spells.reads {piece : Piece} (hplain : Plain settings) (h : Spells piece text) :
    Reads settings stream piece.shape piece.tokens piece.nesting text := by
  induction h with
  | null => exact reads_null
  | true => exact reads_boolean Bool.true
  | false => exact reads_boolean Bool.false
  | integer h hn => exact reads_number h.isNumber (convert_integer h hn)
  | real h => exact reads_number h.number (convert_real h hplain.floats hplain.bigIntegers)
  | @string text string h =>
      have hreads : Reads settings stream .value [(.scalar (textEntry settings.dates string).1,
          some (textEntry settings.dates string).2)] 0 text := reads_string h.quotes
      rwa [hplain.dates] at hreads
  | emptyArray hblank => exact reads_empty .array hblank
  | array h hblank ih => exact ih.enclosed .array hblank
  | emptyObject hblank => exact reads_empty .object hblank
  | object h hblank ih => exact ih.enclosed .object hblank
  | @lastItem item blank text hblank h ih =>
      have htokens : (Piece.items [item]).tokens = item.tokens := List.append_nil _
      have hnesting : (Piece.items [item]).nesting = item.nesting := Nat.max_zero _
      rw [htokens, hnesting]
      exact ih.last .array hblank
  | nextItem hblank h hblank' hrest ih ihrest => exact ih.next ihrest .array hblank hblank'
  | @member name item quoted blank blank' text hname hblank hblank' h ih =>
      have hmember := ih.member hname.quotes hblank hblank'
      rwa [hplain.intern] at hmember
  | @lastMember name item blank text hblank h ih =>
      have htokens : (Piece.members [(name, item)]).tokens = (Piece.member name item).tokens :=
        List.append_nil _
      have hnesting : (Piece.members [(name, item)]).nesting = (Piece.member name item).nesting :=
        Nat.max_zero _
      rw [htokens, hnesting]
      exact ih.last .object hblank
  | nextMember hblank h hblank' hrest ih ihrest => exact ih.next ihrest .object hblank hblank'

end Json

/-! ## Whole texts -/

/-- What is seen of a call, apart from where the reader is. -/
def shown (seen : Except ReadError Answer × View) :
    Except ReadError Answer × Token × Option Value :=
  (seen.1, seen.2.token, seen.2.value?)

namespace Whole

variable {r r' : Whole} {tokens : List (Token × Option Value)}

theorem observe_produces (h : r.Produces settings stream tokens r') (calls : List Call) :
    (r.observe settings stream (List.replicate tokens.length .read ++ calls)).map shown =
      tokens.map (fun token => (.ok (.found true), token)) ++
        (r'.observe settings stream calls).map shown := by
  induction tokens generalizing r with
  | nil =>
      cases h
      rfl
  | cons token tokens ih =>
      obtain ⟨token, value⟩ := token
      obtain ⟨r₁, hcall, htoken, hvalue, hrest⟩ := h
      have hshown : shown (.ok (.found true), r₁.view stream) =
          (.ok (.found true), token, value) := by
        rw [shown, view, htoken, hvalue]
      rw [List.length_cons, List.replicate_succ, List.cons_append, observe, hcall]
      dsimp only
      rw [List.map_cons, List.map_cons, List.cons_append, ih hrest, hshown]

/-- Behind the last value, reads find no token, however often they are tried. -/
theorem observe_ended (hblank : IsBlank blank) (hphase : phase = .finished ∨ phase = .postValue)
    (h : Stands stream phase [] blank r.state r.cursor) (n : Nat) :
    (r.observe settings stream (List.replicate n .read)).map shown =
      List.replicate n (.ok (.found false), .none, none) := by
  induction n generalizing r phase blank with
  | zero => rfl
  | succ n ih =>
      obtain ⟨found, r', hcall, rfl, htoken, hslot, hstands⟩ :=
        call_of_succeeds (Reading.succeeds_token_end hblank hphase h.clearSlot)
      rw [List.replicate_succ, List.replicate_succ, observe, hcall]
      dsimp only
      rw [List.map_cons, ih isBlank_nil (.inl rfl) hstands]
      congr 1
      rw [shown, view, value?, htoken, hslot]
      rfl

end Whole

namespace Tokenizer

/-- Any text of a document is read as the document, however it is split and wherever its bytes are
kept, and then there are no more tokens. -/
theorem observe_document {options : Options} (hdates : options.dates = .none)
    (hfloats : options.floats = .double) (hbig : options.bigIntegers = false) {doc : Json}
    (hdepth : ∀ limit, options.maxDepth = some limit → doc.nesting ≤ limit) {source : Source}
    (hsource : source.Steady) (htext : IsText source.bytes doc) (pool : Pool) (heeds : Bool)
    (n : Nat) :
    ((ofSource options source pool heeds).observe
        (List.replicate doc.tokens.length .read ++ List.replicate (n + 1) .read)).map shown =
      doc.tokens.map (fun token => (.ok (.found true), token)) ++
        List.replicate (n + 1) (.ok (.found false), .none, none) := by
  have hplain : Plain options.settings := ⟨hdates, hfloats, hbig, options.intern_eq⟩
  rw [observe_whole (sound_ofSource options hsource pool heeds)]
  change (Whole.observe options.settings source.bytes _ {}).map shown = _
  generalize source.bytes = stream at htext
  cases htext with
  | mk hbefore h hafter =>
      rename_i before text after
      have hstart : Stands (before ++ (text ++ after)) .start [] (before ++ (text ++ after)) {} 0 :=
        ⟨rfl, rfl, rfl⟩
      have hend : EndsWord .start after := by
        rw [← List.append_nil after]
        exact (hafter.isEnd_append isEnd_nil).endsWord _
      have hallows : Allows options.settings (([] : List Container).length + doc.nesting) := by
        rw [List.length_nil, Nat.zero_add]
        exact hdepth
      have hfits : Shape.value.Fits .start [] := rfl
      have hreaches : Whole.Reaches options.settings (before ++ (text ++ after)) {} doc.tokens
          (completed options.settings []) [] after :=
        h.reads hplain hfits hbefore hend hallows (Reading.awaits_part hstart.clearSlot nofun)
      obtain ⟨r', hproduces, hstands⟩ := hreaches
      have hphase := completed_outermost options.settings
      rw [Whole.observe_produces hproduces, Whole.observe_ended hafter hphase hstands]

/-- The text `{"a": [-1,"\n"]}`, which comes byte by byte. -/
theorem observe_document_nested :
    let doc : Json := .object [("a", .array [.integer (-1), .string "\n"])]
    let source : Source :=
      { script := [.bytes ⟨#[0x7B, 0x22, 0x61, 0x22, 0x3A, 0x20, 0x5B, 0x2D, 0x31, 0x2C, 0x22,
          0x5C, 0x6E, 0x22, 0x5D, 0x7D]⟩ 0], limit := some 1 }
    IsText source.bytes doc ∧ source.Steady ∧
      ((ofSource { dates := .none } source {} false).observe
          (List.replicate doc.tokens.length .read ++ List.replicate 1 .read)).map shown =
        doc.tokens.map (fun token => (.ok (.found true), token)) ++
          [(.ok (.found false), .none, none)] := by
  intro doc source
  have hnone : IsBlank [] := fun b hb => absurd hb List.not_mem_nil
  have hspace : IsBlank [0x20] := by
    intro b hb
    exact .inl (List.mem_singleton.mp hb)
  have hname : IsString [0x22, 0x61, 0x22] "a" :=
    .mk (@IsBody.raw 'a' [] [] (by decide) (by decide) (by decide) .nil)
  have hfeed : IsString [0x22, 0x5C, 0x6E, 0x22] "\n" :=
    .mk (@IsBody.letter 0x6E '\n' [] [] (by decide) .nil)
  have hone : IsWhole [0x31] := by
    refine ⟨⟨List.cons_ne_nil _ _, fun b hb => ?_⟩, fun h => absurd (Option.some.inj h) (by decide)⟩
    rw [List.mem_singleton.mp hb]
    decide
  have hitem : Spells (.value (.integer (-1))) [0x2D, 0x31] :=
    .integer (.negative hone) ⟨by decide, by decide⟩
  have hlast : Spells (.items [.string "\n"]) [0x22, 0x5C, 0x6E, 0x22] :=
    .lastItem hnone (.string hfeed)
  have hitems : Spells (.items [.integer (-1), .string "\n"])
      [0x2D, 0x31, 0x2C, 0x22, 0x5C, 0x6E, 0x22] := .nextItem hnone hitem hnone hlast
  have harray : Spells (.value (.array [.integer (-1), .string "\n"]))
      [0x5B, 0x2D, 0x31, 0x2C, 0x22, 0x5C, 0x6E, 0x22, 0x5D] := .array hitems hnone
  have hmember : Spells (.members [("a", .array [.integer (-1), .string "\n"])])
      [0x22, 0x61, 0x22, 0x3A, 0x20, 0x5B, 0x2D, 0x31, 0x2C, 0x22, 0x5C, 0x6E, 0x22, 0x5D] :=
    .lastMember hnone (.member hname hnone hspace harray)
  have htext : IsText source.bytes doc := .mk hnone (.object hmember hnone) hnone
  have hsteady : source.Steady := by decide
  have hdepth : ∀ limit, some 64 = some limit → doc.nesting ≤ limit := by
    rintro limit ⟨⟩
    decide
  exact ⟨htext, hsteady, observe_document rfl rfl rfl hdepth hsteady htext {} false 0⟩

end Tokenizer

end JsonPull
