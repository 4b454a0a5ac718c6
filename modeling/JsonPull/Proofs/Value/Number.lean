import JsonPull.Proofs.Tokenizer.Typing
import JsonPull.Proofs.Value.Call
import JsonPull.Proofs.Value.Integer

/-! # Numbers in all forms

A number is scanned in the same way in whatever form it is asked for. What each call makes of it is
its conversion, and the conversions agree on what a number is. -/

namespace JsonPull

open JsonPull.Number JsonPull.Json

variable {settings : Settings} {stream lexeme rest : List UInt8} {s : State} {pos : Nat}

/-- A number as it is written, up to what ends it. -/
structure IsLexeme (lexeme rest : List UInt8) : Prop where
  first : ∃ b ∈ lexeme.head?, isDigit b = true ∨ b = 0x2D ∨ b = 0x2E
  bytes : ∀ b ∈ lexeme, Lexeme.isByte b = true
  terminates : Terminates rest

/-! ## Conversions -/

namespace Lexeme

/-- The kind of token and the value that a request makes of a number. -/
def entry (settings : Settings) (request : Request) (lexeme : List UInt8) :
    Except NumberFault (Scalar × Value) :=
  if request = .boolean then
    (plain settings lexeme).map fun v => (.boolean, .boolean v.isTruthy)
  else
    (convert settings request lexeme).map fun v? =>
      ((v?.map kind).getD .string, v?.getD (.string (Text.ofBytes lexeme)))

theorem entry_plain : entry settings .plain lexeme =
    (plain settings lexeme).map fun v => (kind v, v) := by
  have hconvert : convert settings .plain lexeme = (plain settings lexeme).map some := rfl
  rw [entry, if_neg nofun, hconvert]
  cases plain settings lexeme <;> rfl

theorem entry_int32 : entry settings .int32 lexeme =
    (int32 lexeme).map fun n => (.integer, .integer n) := by
  rw [entry, if_neg nofun, convert]
  cases int32 lexeme <;> rfl

/-- What can be read as a number of double precision can be asked for as a text, which keeps its
spelling. -/
theorem entry_string : entry settings .string lexeme =
    if (double? lexeme).isSome then .ok (.string, .string (Text.ofBytes lexeme))
    else .error (.notNumber (Text.ofBytes lexeme)) := by
  have hvalid : (if isRadix lexeme then (radix64? lexeme).isSome
      else (Double.ofBytes? lexeme).isSome) = (double? lexeme).isSome := by
    unfold double?
    split
    · rw [Option.isSome_map]
    · rfl
  rw [entry, if_neg nofun, convert, hvalid]
  cases (double? lexeme).isSome <;> rfl

/-- Without big integers, what can be read at all is what can be read as a number of double
precision. -/
theorem plain_isOk_iff (hfloats : settings.floats = .double) (hbig : settings.bigIntegers = false) :
    (plain settings lexeme).isOk = (double? lexeme).isSome := by
  unfold plain double?
  split
  · cases radix64? lexeme <;> rfl
  · have hfloat : (float settings lexeme).isOk = (Double.ofBytes? lexeme).isSome := by
      rw [float, hfloats]
      cases Double.ofBytes? lexeme <;> rfl
    cases hinteger : decimalInteger? lexeme with
    | none => exact hfloat
    | some n =>
        obtain ⟨_, -, hnumeral⟩ := numeral_of_decimalInteger? hinteger
        dsimp only
        split
        · rw [Double.ofBytes?, hnumeral]
          rfl
        · rw [hbig]
          exact hfloat

theorem entry_isOk (hfloats : settings.floats = .double) (hbig : settings.bigIntegers = false)
    {request : Request} (hrequest : request ∈ [.plain, .double, .boolean, .string]) :
    (entry settings request lexeme).isOk = (double? lexeme).isSome := by
  have hmap : ∀ {ε α β : Type} (f : α → β) (x : Except ε α), (x.map f).isOk = x.isOk := by
    intro ε α β f x
    cases x <;> rfl
  have hplain : (plain settings lexeme).isOk = (double? lexeme).isSome :=
    plain_isOk_iff hfloats hbig
  simp only [List.mem_cons, List.not_mem_nil, or_false] at hrequest
  rcases hrequest with rfl | rfl | rfl | rfl
  · rw [entry_plain, hmap, hplain]
  · rw [entry, if_neg nofun, hmap, convert]
    cases double? lexeme <;> rfl
  · rw [entry, if_pos rfl, hmap, hplain]
  · rw [entry_string]
    cases (double? lexeme).isSome <;> rfl

/-- The bits of a radix literal of 32 bits are the last ones of the same literal in 64 bits. -/
theorem radix64?_of_radix32 {v : Int} (h : radixInteger? 32 lexeme = some v) :
    ∃ n : Int, radix64? lexeme = some n ∧ n ≡ v [ZMOD 2 ^ 32] := by
  obtain ⟨m, hm, hv⟩ := Option.bind_eq_some_iff.mp h
  split at hv
  · rename_i hlt
    have hwide : twoPow 32 ≤ twoPow 63 ∧ twoPow 63 ≤ twoPow 64 := by decide
    refine ⟨m, ?_, ?_⟩
    · rw [radix64?, radixInteger?, hm, Option.bind_some, if_pos (by omega), twosComplement,
        if_pos (hlt.trans_le hwide.1)]
    · rw [← Option.some.inj hv]
      exact (twosComplement_emod 32 m).symm
  · cases hv

theorem fits_of_int32 {v : Int} (h : int32 lexeme = .ok v) : -2 ^ 31 ≤ v ∧ v < 2 ^ 31 := by
  rw [← fitsSigned_pow]
  unfold int32 at h
  split at h
  · split at h
    · rename_i n hn
      obtain ⟨m, -, hm⟩ := Option.bind_eq_some_iff.mp hn
      split at hm
      · rename_i hlt
        rw [← Except.ok.inj h, ← Option.some.inj hm]
        exact fitsSigned_twosComplement (by decide) hlt
      · cases hm
    · cases h
  · split at h
    · cases h
    · split at h
      · rename_i hfits
        rw [← Except.ok.inj h]
        exact hfits
      · cases h

/-- An integer of 32 bits is read as one of 64 bits with the same last bits. -/
theorem plain_of_int32 {v : Int} (h : int32 lexeme = .ok v) :
    ∃ n, plain settings lexeme = .ok (.integer n) ∧ n ≡ v [ZMOD 2 ^ 32] ∧
      (isRadix lexeme = false → n = v) := by
  unfold int32 at h
  split at h
  · rename_i hradix
    split at h
    · rename_i v' hnarrow
      obtain rfl : v' = v := Except.ok.inj h
      obtain ⟨n, hn, hcongruent⟩ := radix64?_of_radix32 hnarrow
      refine ⟨n, ?_, hcongruent, fun hnot => absurd (hradix.symm.trans hnot) nofun⟩
      rw [plain, if_pos hradix, hn]
    · cases h
  · rename_i hradix
    split at h
    · cases h
    · rename_i n hinteger
      split at h
      · rename_i hfits
        obtain rfl : n = v := Except.ok.inj h
        have hbounds : -2 ^ 31 ≤ n ∧ n < 2 ^ 31 := fitsSigned_pow.mp hfits
        have hlong : fitsSigned 64 n = true := fitsSigned_pow.mpr (by omega)
        refine ⟨n, ?_, rfl, fun _ => rfl⟩
        rw [plain, if_neg hradix, hinteger]
        exact if_pos hlong
      · cases h

/-- A number is written in ASCII, and so its text is its spelling. -/
theorem toBytes_ofBytes (h : ∀ b ∈ lexeme, isByte b = true) :
    Text.toBytes (Text.ofBytes lexeme) = lexeme := by
  rw [Text.toBytes, Text.ofBytes, String.toList_ofList]
  induction lexeme with
  | nil => rfl
  | cons b more ih =>
      have hascii : b.toNat ≤ 0x7F := by
        by_contra hbeyond
        have hle : 0x80 ≤ b := UInt8.le_iff_toNat_le.mpr (Nat.lt_of_not_le hbeyond)
        have hbyte := h b (List.mem_cons_self ..)
        rw [isByte_blank (.inr hle)] at hbyte
        cases hbyte
      have hlt : b < 0x80 := UInt8.lt_iff_toNat_lt.mpr (Nat.lt_succ_of_le hascii)
      have hchar : (Char.ofNat b.toNat).toNat = b.toNat := by
        have hvalid : b.toNat.isValidChar := .inl (by omega)
        rw [Char.toNat_ofNat, if_pos hvalid]
      have hencode : Text.encode (Char.ofNat b.toNat) = [b] := by
        rw [Text.encode_ascii (by omega), hchar, UInt8.ofNat_toNat]
      rw [Text.decodeLossy_cons_ascii hlt, List.flatMap_cons, hencode,
        ih fun b' hb' => h b' (List.mem_cons_of_mem _ hb')]
      rfl

end Lexeme

/-! ## Readings -/

namespace Reading

variable {text : List UInt8} {request : Request} {fault : NumberFault}

theorem succeeds_lexeme_exact (h : IsLexeme text rest) (hahead : Ahead stream pos (text ++ rest))
    {post : Unit → State → Nat → Prop} :
    Reading.lexeme.Succeeds settings stream s pos post ↔ post () s (pos + text.length) := by
  have hlexeme : Reading.lexeme.Succeeds settings stream s pos _ :=
    succeeds_lexeme h.bytes h.terminates hahead
  obtain ⟨_, _, _, ⟨rfl, rfl⟩, hexact⟩ := hlexeme.exact
  exact hexact post

/-- A number that can be converted is published as what it was converted to, or as it stands. -/
theorem succeeds_numberValue_converted {v? : Option Value}
    (hconvert : Lexeme.convert settings request text = .ok v?) (h : IsLexeme text rest)
    (hahead : Ahead stream pos (text ++ rest)) {post : Unit → State → Nat → Prop} :
    (numberValue request).Succeeds settings stream s pos post ↔
      post () ((s.completeValue settings).countElement.publishScalar settings
        ((v?.map Lexeme.kind).getD .string)
        ((v?.map Slot.owned).getD (.held { first := pos, last := pos + text.length })) false)
        (pos + text.length) := by
  have hslice : (stream.drop pos).take (pos + text.length - pos) = text := by
    rw [Nat.add_sub_cancel_left, hahead.slice]
  unfold numberValue
  rw [succeeds_bind, succeeds_settle, succeeds_bind, succeeds_cursor, succeeds_bind,
    succeeds_lexeme_exact h hahead, succeeds_bind, succeeds_finishValue, succeeds_bind,
    succeeds_cursor, succeeds_bind, succeeds_hold, succeeds_bind, succeeds_bytesOf, succeeds_bind,
    succeeds_read, hslice, hconvert]
  cases v? <;> exact succeeds_update _

/-- A number that cannot be converted fails behind its last byte. -/
theorem lands_numberValue_refused (hconvert : Lexeme.convert settings request text = .error fault)
    (h : IsLexeme text rest) (hahead : Ahead stream pos (text ++ rest)) :
    (numberValue request).Lands settings stream s pos
      fun r _ _ => ∃ e, r = .error e ∧ e.kind = .ofNumberFault fault := by
  have hslice : (stream.drop pos).take (pos + text.length - pos) = text := by
    rw [Nat.add_sub_cancel_left, hahead.slice]
  unfold numberValue
  rw [lands_bind_iff fun _ => succeeds_settle, lands_bind_iff fun _ => succeeds_cursor,
    lands_bind_iff fun _ => succeeds_lexeme_exact h hahead,
    lands_bind_iff fun _ => succeeds_finishValue, lands_bind_iff fun _ => succeeds_cursor,
    lands_bind_iff fun _ => succeeds_hold _ _, lands_bind_iff fun _ => succeeds_bytesOf _,
    lands_bind_iff fun _ => succeeds_read, hslice, hconvert]
  dsimp only
  unfold failNumber
  rw [lands_bind_iff fun _ => succeeds_update _]
  exact lands_fail _ fun e he => ⟨e, rfl, he⟩

/-- How the reading of a number ends that has this conversion. -/
def Converted (settings : Settings) (stream rest : List UInt8) (s : State) :
    Except NumberFault (Scalar × Value) → Except ReadError Unit → State → Nat → Prop
  | .ok (kind, v), r, s', pos' =>
    r = .ok () ∧ Published settings stream kind (some v) rest s s' pos'
  | .error fault, r, _, _ => ∃ e, r = .error e ∧ e.kind = .ofNumberFault fault

theorem lands_numberValue (hrequest : request ≠ .boolean) (h : IsLexeme text rest)
    (hahead : Ahead stream pos (text ++ rest)) :
    (numberValue request).Lands settings stream s pos
      (Converted settings stream rest s (Lexeme.entry settings request text)) := by
  unfold Lexeme.entry
  rw [if_neg hrequest]
  cases hconvert : Lexeme.convert settings request text with
  | error fault => exact lands_numberValue_refused hconvert h hahead
  | ok v? =>
      refine Succeeds.lands ((succeeds_numberValue_converted hconvert h hahead).mpr ⟨rfl, ?_⟩)
      refine published_of_counted ?_ (.refl _) hahead.skip
      cases v? with
      | some v => rfl
      | none =>
          change some (Value.string (Text.ofBytes _)) = _
          rw [Nat.add_sub_cancel_left, hahead.slice]
          rfl

theorem publishScalar_again (kind kind' : Scalar) (slot slot' : Slot) (s : State) :
    (s.publishScalar settings kind slot false).publishScalar settings kind' slot' false =
      s.publishScalar settings kind' slot' false := rfl

/-- A number that is asked for as a truth value is read as it is written first. -/
theorem lands_truth (h : IsLexeme text rest) (hahead : Ahead stream pos (text ++ rest)) :
    (requestedNumber .boolean).Lands settings stream s pos
      (Converted settings stream rest s (Lexeme.entry settings .boolean text)) := by
  have hconvert : Lexeme.convert settings .plain text = (Lexeme.plain settings text).map some := rfl
  unfold requestedNumber Lexeme.entry
  rw [if_pos rfl]
  cases hplain : Lexeme.plain settings text with
  | error fault =>
      rw [hplain] at hconvert
      refine (lands_numberValue_refused hconvert h hahead).bind ?_ ?_
      · exact fun e s' pos' hfails => hfails
      · rintro b s' pos' ⟨e, ⟨⟩, -⟩
  | ok v =>
      rw [hplain] at hconvert
      rw [lands_bind_iff fun _ => succeeds_numberValue_converted hconvert h hahead,
        lands_bind_iff fun _ => succeeds_get]
      refine Succeeds.lands ((succeeds_update _).mpr ⟨rfl, ?_⟩)
      rw [publishScalar_again]
      exact published_of_counted rfl (.refl _) hahead.skip

end Reading

end JsonPull
