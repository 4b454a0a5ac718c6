import JsonPull.Proofs.Stream.Look
import JsonPull.Proofs.Text.Step
import JsonPull.Proofs.Tokenizer.Run
import JsonPull.Proofs.Tokenizer.Whole

/-! # Characters ahead of the cursor

However a stream is split and wherever the window stands in it, a look at any place ahead of the
cursor finds the character whose encoding stands there. A walk from character to character finds a
text again, and neither moves the cursor. -/

namespace JsonPull

/-- The next `count` characters from `ahead` of the cursor on, or as many as there are before the
end. Each step goes on where the character before ends. -/
def Reading.charsFrom (retain : Retain) : Nat → Nat → Reading (List Char)
  | 0, _ => return []
  | count + 1, ahead => do
    match ← charAt? ahead retain with
    | none => return []
    | some (c, length) => do
      let chars ← charsFrom retain count (ahead + length)
      return c :: chars

namespace Tokenizer

open Reading

variable {α β : Type} {stream : List UInt8} {retain : Retain} {t : Tokenizer} {ahead : Nat}

/-- A reading answers `a` and changes nothing but the feed, which may have fetched for it. -/
def Sees (stream : List UInt8) (retain : Retain) (t : Tokenizer) (x : Reading α) (a : α) : Prop :=
  ∃ feed, t.run x = (.ok a, { t with feed }) ∧ t.feed.Serves stream retain feed

theorem sees_pure (h : t.feed.Flows stream) (a : α) : t.Sees stream retain (pure a) a :=
  ⟨t.feed, rfl, h.serves⟩

theorem Sees.bind {x : Reading β} {k : β → Reading α} {b : β} {a : α}
    (hx : t.Sees stream retain x b)
    (hk : ∀ feed, t.feed.Serves stream retain feed →
      Sees stream retain { t with feed } (k b) a) : t.Sees stream retain (x >>= k) a := by
  obtain ⟨feed, hrun, hserves⟩ := hx
  obtain ⟨feed', hrun', hserves'⟩ := hk feed hserves
  refine ⟨feed', ?_, hserves.trans hserves'⟩
  rw [run_bind, hrun]
  exact hrun'

/-! ## Bytes -/

theorem sees_byte? (h : t.feed.Flows stream) (ahead : Nat) (retain : Retain) :
    t.Sees stream retain (byte? ahead retain) stream[t.feed.window.cursor + ahead]? := by
  obtain ⟨hbyte, hserves⟩ := h.byte? ahead retain
  exact ⟨_, run_byte? hbyte, hserves⟩

/-- Several bytes are seen where the last of them is. -/
theorem sees_bytes? (h : t.feed.Flows stream) (ahead count : Nat) (retain : Retain) :
    t.Sees stream retain (bytes? ahead count retain)
      (if count < (stream.drop (t.feed.window.cursor + ahead)).length then
        some ((stream.drop (t.feed.window.cursor + ahead)).take (count + 1)) else none) := by
  obtain ⟨hbyte, hserves⟩ := h.byte? (ahead + count) retain
  refine ⟨_, ?_, hserves⟩
  rw [bytes?, run_bind, run_byte? hbyte, List.length_drop]
  cases hlast : stream[t.feed.window.cursor + (ahead + count)]? with
  | none =>
      have hle := List.getElem?_eq_none_iff.mp hlast
      rw [if_neg (by omega)]
      rfl
  | some b =>
      have hlt := (List.getElem?_eq_some_iff.mp hlast).1
      have hheld := Feed.byte?_of_ok hbyte
      have hcursor := hserves.cursor
      have hflows := hserves.flows
      generalize (t.feed.byte? (ahead + count) retain).2 = feed at hheld hcursor hflows ⊢
      have hslice := hflows.slice? (hheld.symm.trans hlast)
      have hask : run (ask (.slice (feed.window.cursor + ahead)
          (feed.window.cursor + ahead + (count + 1)))) { t with feed } =
          (.ok (feed.window.slice? (feed.window.cursor + ahead)
            (feed.window.cursor + ahead + (count + 1))), { t with feed }) := rfl
      rw [if_pos (by omega), ← hcursor, ← hslice]
      change run (bytesOf { first := feed.window.cursor + ahead, last := _ } >>= fun bytes =>
        pure (some bytes)) { t with feed } = _
      rw [run_bind, bytesOf, run_bind, hask, hslice]
      rfl

/-! ## Characters -/

/-- What the bytes announce is seen, whether they have to be fetched or not. -/
theorem sees_charAt? (h : t.feed.Flows stream) (ahead : Nat) (retain : Retain) :
    t.Sees stream retain (charAt? ahead retain)
      (Text.step? (stream.drop (t.feed.window.cursor + ahead))) := by
  have hhead : stream[t.feed.window.cursor + ahead]? =
      (stream.drop (t.feed.window.cursor + ahead)).head? := by
    rw [List.head?_drop]
  refine (sees_byte? h ahead retain).bind fun feed hserves => ?_
  have hbytes := sees_bytes? (t := { t with feed }) hserves.flows ahead
  simp only [hserves.cursor] at hbytes
  rw [hhead]
  generalize stream.drop (t.feed.window.cursor + ahead) = bytes at hbytes ⊢
  cases bytes with
  | nil => exact sees_pure hserves.flows none
  | cons lead rest =>
      dsimp only [List.head?_cons]
      split
      · rename_i hascii
        rw [Text.step?_ascii hascii]
        exact sees_pure hserves.flows _
      rename_i hbeyond
      split
      · rename_i hone
        rw [Text.step?_alone hbeyond hone]
        exact sees_pure hserves.flows _
      have hpos := sequenceLength_pos lead
      refine (hbytes (Text.sequenceLength lead - 1) retain).bind fun feed' hserves' => ?_
      by_cases hlong : Text.sequenceLength lead - 1 < (lead :: rest).length
      · rw [if_pos hlong, Nat.sub_add_cancel hpos, Text.step?]
        dsimp only
        cases Text.decodeSequence? ((lead :: rest).take (Text.sequenceLength lead)) with
        | none => exact sees_pure (t := { t with feed := feed' }) hserves'.flows _
        | some c => exact sees_pure (t := { t with feed := feed' }) hserves'.flows _
      · rw [if_neg hlong, Text.step?_short (by omega)]
        exact sees_pure (t := { t with feed := feed' }) hserves'.flows _

/-- A walk finds the characters whose encodings stand one behind the other. -/
theorem sees_charsFrom {chars : List Char} {rest : List UInt8} {count : Nat}
    (h : t.feed.Flows stream)
    (hahead : stream.drop (t.feed.window.cursor + ahead) = chars.flatMap Text.encode ++ rest)
    (hcount : count ≤ chars.length ∨ rest = []) :
    t.Sees stream retain (charsFrom retain count ahead) (chars.take count) := by
  induction count generalizing t ahead chars with
  | zero => exact sees_pure h []
  | succ count ih =>
      have hstep := sees_charAt? h ahead retain
      rw [hahead] at hstep
      cases chars with
      | nil =>
          obtain rfl : rest = [] := hcount.resolve_left (Nat.not_succ_le_zero _)
          exact hstep.bind fun feed hserves => sees_pure hserves.flows []
      | cons c chars =>
          rw [List.flatMap_cons, List.append_assoc] at hahead hstep
          rw [Text.step?_encode (List.prefix_append _ _)] at hstep
          refine hstep.bind fun feed hserves => ?_
          have hbehind : stream.drop (feed.window.cursor + (ahead + (Text.encode c).length)) =
              chars.flatMap Text.encode ++ rest := by
            rw [hserves.cursor, ← Nat.add_assoc, ← List.drop_drop, hahead, List.drop_left]
          have hwalk := ih (t := { t with feed }) hserves.flows hbehind
            (hcount.imp_left Nat.le_of_succ_le_succ)
          exact hwalk.bind fun feed' hserves' => sees_pure hserves'.flows _

/-- On a stream that comes from a source that does not fail, in whatever pieces and into whatever
window, the character at a place ahead of the cursor is that of the well-formed sequence which begins
there; it is U+FFFD with one byte where none begins, and there is no character exactly at the end. A
walk through the encoding of a text visits its characters in their order. Neither moves the cursor,
and where all held bytes are to stay, none of them moves. -/
theorem characters_seen (h : t.feed.Flows stream) (ahead : Nat) (retain : Retain) :
    (∃ step, t.Sees stream retain (charAt? ahead retain) step ∧
        Text.IsStep (stream.drop (t.feed.window.cursor + ahead)) step) ∧
      ∀ (text : String) (rest : List UInt8) (count : Nat),
        stream.drop (t.feed.window.cursor + ahead) = Text.toBytes text ++ rest →
        count ≤ text.length ∨ rest = [] →
        t.Sees stream retain (charsFrom retain count ahead) (text.toList.take count) := by
  refine ⟨⟨_, sees_charAt? h ahead retain, Text.isStep_step? _⟩, ?_⟩
  intro text rest count hahead hcount
  exact sees_charsFrom h hahead (by rwa [String.length_toList])

theorem Sound.flows (h : t.Sound stream) : t.feed.Flows stream := by
  obtain ⟨delivered, d, hfits, -⟩ := h.held
  exact ⟨⟨delivered, hfits.follows⟩, h.steady⟩

/-- Behind a bracket, a character whose two bytes arrive one by one, and the front of a surrogate. -/
theorem characters_seen_in_pieces :
    let source : Source :=
      { script := [.bytes ⟨#[0x5B, 0xC3]⟩ 0, .pending, .bytes ⟨#[0xA9, 0xED, 0xA0]⟩ 0]
        limit := some 1 }
    let t := ((ofSource { initialCapacity := 2 } source {} false).call .read).2
    t.feed.Flows source.bytes ∧
      source.bytes.drop (t.feed.window.cursor + 0) = Text.toBytes "\u00e9" ++ [0xED, 0xA0] ∧
      t.Sees source.bytes .all (charAt? 0 .all) (some ('\u00e9', 2)) ∧
      t.Sees source.bytes .all (charsFrom .all 1 0) ['\u00e9'] := by
  intro source t
  have hsteady : source.Steady := by decide
  have hflows : t.feed.Flows source.bytes := ((sound_ofSource _ hsteady {} false).call .read).2.flows
  have hahead : source.bytes.drop (t.feed.window.cursor + 0) =
      Text.toBytes "\u00e9" ++ [0xED, 0xA0] := by
    decide +kernel
  obtain ⟨⟨step, hsees, hstep⟩, hwalk⟩ := characters_seen hflows 0 .all
  have heq : step = some ('\u00e9', 2) :=
    hstep.wellFormed '\u00e9' ⟨[0xED, 0xA0], by rw [hahead]; decide⟩
  rw [heq] at hsees
  exact ⟨hflows, hahead, hsees, hwalk "\u00e9" _ 1 hahead (.inl (by decide))⟩

end Tokenizer

end JsonPull
