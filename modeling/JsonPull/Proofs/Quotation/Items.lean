import JsonPull.Proofs.Json.Text
import JsonPull.Proofs.Text.Runs

/-! # The body of a string

Between its quotes a string has bytes that stand for themselves, escapes of one letter, and units of
UTF-16 in hexadecimal digits. What it denotes is decoded run by run. A reader decodes pairs of units
on the way and everything else at the end, which comes to the same. -/

namespace JsonPull.Quotation

open JsonPull.Json JsonPull.Text

/-- A part of a body: a byte that stands for itself, the character of an escape of one letter, or a
unit of UTF-16. -/
inductive Item where
  | byte (b : UInt8)
  | letter (c : Char)
  | unit (n : Nat)

/-- The letters behind a backslash, each with the character that it stands for: those of JSON, and
the single quote. -/
def letters : List (UInt8 × Char) :=
  (0x27, '\x27') :: escapes

/-- What may stand between two quotes, and its parts. -/
inductive Spells (quote : UInt8) : List Item → List UInt8 → Prop where
  | nil : Spells quote [] []
  | byte {b : UInt8} {items : List Item} {body : List UInt8} (hquote : b ≠ quote)
      (hbackslash : b ≠ 0x5C) (h : Spells quote items body) :
      Spells quote (.byte b :: items) (b :: body)
  | letter {b : UInt8} {c : Char} {items : List Item} {body : List UInt8}
      (hletter : (b, c) ∈ letters) (h : Spells quote items body) :
      Spells quote (.letter c :: items) (0x5C :: b :: body)
  | unit {n : Nat} {digits : List UInt8} {items : List Item} {body : List UInt8}
      (hunit : IsUnit digits n) (h : Spells quote items body) :
      Spells quote (.unit n :: items) (0x5C :: 0x75 :: (digits ++ body))

/-- What the next quote closes: a backslash takes the byte behind it along, whether that makes sense
or not. -/
inductive IsClosed (quote : UInt8) : List UInt8 → Prop where
  | nil : IsClosed quote []
  | byte {b : UInt8} {body : List UInt8} (hquote : b ≠ quote) (hbackslash : b ≠ 0x5C)
      (h : IsClosed quote body) : IsClosed quote (b :: body)
  | escape {b : UInt8} {body : List UInt8} (h : IsClosed quote body) :
      IsClosed quote (0x5C :: b :: body)

/-! ## What is denoted -/

/-- Whether two neighbours belong to one run. -/
def Item.joins : Item → Item → Bool
  | byte _, byte _ => true
  | unit _, unit _ => true
  | _, _ => false

def Item.byte? : Item → Option UInt8
  | byte b => some b
  | _ => none

def Item.unit? : Item → Option Nat
  | unit n => some n
  | _ => none

/-- The characters of a run. Bytes are decoded as UTF-8 and units as UTF-16, with U+FFFD for what is
ill-formed. -/
def decodeRun : List Item → List Char
  | [] => []
  | .byte b :: run => decodeLossy (b :: run.filterMap Item.byte?)
  | .letter c :: _ => [c]
  | .unit n :: run => decodeUnits (n :: run.filterMap Item.unit?)

/-- The text that a body denotes: that of its maximal runs. -/
def text (items : List Item) : String :=
  String.ofList ((items.splitBy Item.joins).flatMap decodeRun)

/-! ## What is collected -/

/-- The bytes that are collected of a body, behind a high surrogate that waits for its other half or
behind none. -/
def output : Option Nat → List Item → List UInt8
  | none, [] => []
  | none, .byte b :: items => b :: output none items
  | none, .letter c :: items => encode c ++ output none items
  | none, .unit n :: items =>
    if isHighSurrogate n then output (some n) items else encode (ofUnit n) ++ output none items
  | some _, [] => encode replacement
  | some _, .byte b :: items => encode replacement ++ b :: output none items
  | some _, .letter c :: items => encode replacement ++ (encode c ++ output none items)
  | some high, .unit n :: items =>
    if isLowSurrogate n then encode (ofPair high n) ++ output none items
    else if isHighSurrogate n then encode replacement ++ output (some n) items
    else encode replacement ++ (encode (ofUnit n) ++ output none items)

variable {items run : List Item} {runs : List (List Item)}

theorem output_alone (high : Nat) (h : ∀ n more, items ≠ .unit n :: more) :
    output (some high) items = encode replacement ++ output none items := by
  match items with
  | [] => exact (List.append_nil _).symm
  | .byte b :: items => rfl
  | .letter c :: items => rfl
  | .unit n :: items => exact absurd rfl (h n items)

theorem output_bytes (bytes : List UInt8) (items : List Item) :
    output none (bytes.map .byte ++ items) = bytes ++ output none items := by
  induction bytes with
  | nil => rfl
  | cons b bytes ih => rw [List.map_cons, List.cons_append, output, ih, List.cons_append]

/-- A run of units is collected as its characters. The second half is about a run that a high
surrogate has already been taken of. -/
theorem output_units (h : ∀ n more, items ≠ .unit n :: more) (units : List Nat) :
    output none (units.map .unit ++ items) =
        (decodeUnits units).flatMap encode ++ output none items ∧
      ∀ high, isHighSurrogate high = true → output (some high) (units.map .unit ++ items) =
        (decodeUnits (high :: units)).flatMap encode ++ output none items := by
  induction units with
  | nil =>
      refine ⟨rfl, fun high hhigh => ?_⟩
      rw [List.map_nil, List.nil_append, output_alone high h, decodeUnits, ofUnit_high hhigh,
        List.flatMap_singleton]
  | cons n units ih =>
      obtain ⟨hnone, hsome⟩ := ih
      have hsingle : isHighSurrogate n = false → decodeUnits (n :: units) =
          ofUnit n :: decodeUnits units := fun hlow =>
        decodeUnits_single fun hhigh => absurd (hlow.symm.trans hhigh) Bool.false_ne_true
      constructor
      · rw [List.map_cons, List.cons_append, output]
        cases hhigh : isHighSurrogate n with
        | true => exact hsome n hhigh
        | false =>
            rw [if_neg Bool.false_ne_true, hnone, hsingle hhigh, List.flatMap_cons,
              List.append_assoc]
      · intro high hhigh
        rw [List.map_cons, List.cons_append, output]
        cases hlow : isLowSurrogate n with
        | true =>
            rw [if_pos rfl, hnone, decodeUnits_pair hhigh hlow, List.flatMap_cons,
              List.append_assoc]
        | false =>
            have hfirst : decodeUnits (high :: n :: units) =
                replacement :: decodeUnits (n :: units) := by
              rw [decodeUnits_single (fun _ next hnext => ?_), ofUnit_high hhigh]
              obtain rfl : n = next := by simpa using hnext
              exact hlow
            rw [if_neg Bool.false_ne_true, hfirst, List.flatMap_cons, List.append_assoc]
            cases hhigh' : isHighSurrogate n with
            | true => rw [if_pos rfl, hsome n hhigh']
            | false =>
                rw [if_neg Bool.false_ne_true, hnone, hsingle hhigh', List.flatMap_cons,
                  List.append_assoc]

/-- What begins with no byte that stands for itself is collected apart. -/
theorem standsApart_output (h : ∀ b more, items ≠ .byte b :: more) :
    StandsApart (output none items) := by
  match items with
  | [] => exact standsApart_nil
  | .byte b :: items => exact absurd rfl (h b items)
  | .letter c :: items => exact standsApart_encode c _
  | .unit n :: items =>
      rw [output]
      split
      · match items with
        | [] =>
            rw [output, ← List.append_nil (encode replacement)]
            exact standsApart_encode _ _
        | .byte b :: items => exact standsApart_encode _ _
        | .letter c :: items => exact standsApart_encode _ _
        | .unit n :: items =>
            rw [output]
            split
            · exact standsApart_encode _ _
            · split <;> exact standsApart_encode _ _
      · exact standsApart_encode _ _

/-! ## Runs -/

/-- What a run consists of. -/
theorem run_cases (hne : run ≠ []) (h : run.IsChain fun a b => Item.joins a b) :
    (∃ bytes : List UInt8, run = bytes.map .byte) ∨ (∃ c, run = [.letter c]) ∨
      ∃ units : List Nat, run = units.map .unit := by
  induction run with
  | nil => exact absurd rfl hne
  | cons a run ih =>
      cases run with
      | nil =>
          cases a with
          | byte b => exact .inl ⟨[b], rfl⟩
          | letter c => exact .inr (.inl ⟨c, rfl⟩)
          | unit n => exact .inr (.inr ⟨[n], rfl⟩)
      | cons a' run =>
          obtain ⟨hjoins, htail⟩ := List.isChain_cons_cons.mp h
          rcases ih (List.cons_ne_nil _ _) htail with ⟨bytes, hrun⟩ | ⟨c, hrun⟩ | ⟨units, hrun⟩
          · cases bytes with
            | nil => cases hrun
            | cons b bytes =>
                obtain ⟨rfl, rfl⟩ := List.cons.inj hrun
                cases a with
                | byte b' => exact .inl ⟨b' :: b :: bytes, rfl⟩
                | letter | unit => cases hjoins
          · obtain ⟨rfl, rfl⟩ := List.cons.inj hrun
            cases a <;> cases hjoins
          · cases units with
            | nil => cases hrun
            | cons n units =>
                obtain ⟨rfl, rfl⟩ := List.cons.inj hrun
                cases a with
                | unit n' => exact .inr (.inr ⟨n' :: n :: units, rfl⟩)
                | byte | letter => cases hjoins

theorem decodeRun_bytes (bytes : List UInt8) : decodeRun (bytes.map .byte) = decodeLossy bytes := by
  have hbyte : Item.byte? ∘ Item.byte = some := rfl
  cases bytes with
  | nil => rfl
  | cons b bytes => rw [List.map_cons, decodeRun, List.filterMap_map, hbyte, List.filterMap_some]

theorem decodeRun_units (units : List Nat) : decodeRun (units.map .unit) = decodeUnits units := by
  have hunit : Item.unit? ∘ Item.unit = some := rfl
  cases units with
  | nil => rfl
  | cons n units => rw [List.map_cons, decodeRun, List.filterMap_map, hunit, List.filterMap_some]

/-- No sequence of bytes goes on from one run into the next, so that runs can be decoded together. -/
theorem decodeLossy_output_flatten (hne : [] ∉ runs)
    (hruns : ∀ run ∈ runs, run.IsChain fun a b => Item.joins a b)
    (hborders : runs.IsChain fun run run' =>
      ∃ h h', Item.joins (run.getLast h) (run'.head h') = false) :
    decodeLossy (output none runs.flatten) = runs.flatMap decodeRun := by
  induction runs with
  | nil => rfl
  | cons run runs ih =>
      obtain ⟨hfirst, hne⟩ : [] ≠ run ∧ [] ∉ runs := by simpa using hne
      have hrest := ih hne (fun run' h => hruns run' (List.mem_cons_of_mem _ h)) hborders.tail
      have hborder : ∀ a more, runs.flatten = a :: more →
          ∃ h, Item.joins (run.getLast h) a = false := by
        intro a more hflatten
        match runs with
        | [] => cases hflatten
        | [] :: runs => exact absurd List.mem_cons_self hne
        | (b :: run') :: runs =>
            obtain ⟨h, h', hjoins⟩ := (List.isChain_cons_cons.mp hborders).1
            obtain ⟨rfl, -⟩ := List.cons.inj hflatten
            exact ⟨h, hjoins⟩
      rw [List.flatten_cons, List.flatMap_cons, ← hrest]
      rcases run_cases (Ne.symm hfirst) (hruns run List.mem_cons_self) with
        ⟨bytes, rfl⟩ | ⟨c, rfl⟩ | ⟨units, rfl⟩
      · rw [output_bytes, decodeRun_bytes]
        refine decodeLossy_append (standsApart_output fun b more hb => ?_)
        obtain ⟨h, hjoins⟩ := hborder _ more hb
        rw [List.getLast_map] at hjoins
        cases hjoins
      · exact decodeLossy_sequence (decodeSequence?_encode c) _
      · have hapart : ∀ n more, runs.flatten ≠ .unit n :: more := by
          intro n more hn
          obtain ⟨h, hjoins⟩ := hborder _ more hn
          rw [List.getLast_map] at hjoins
          cases hjoins
        rw [(output_units hapart units).1, decodeRun_units]
        exact decodeLossy_encode_append _ _

/-- Decoding at the end what was collected gives the text that is denoted. -/
theorem ofBytes_output (items : List Item) : ofBytes (output none items) = text items := by
  have hruns := decodeLossy_output_flatten (List.nil_notMem_splitBy Item.joins items)
    (fun _ => List.isChain_of_mem_splitBy) (List.isChain_getLast_head_splitBy Item.joins items)
  rw [List.flatten_splitBy] at hruns
  rw [ofBytes, hruns, text]

end JsonPull.Quotation
