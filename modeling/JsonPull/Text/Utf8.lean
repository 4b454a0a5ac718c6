/-! # UTF-8, strict and forgiving

Input bytes need not be well formed. A single sequence is decoded strictly by `decodeSequence?`,
while `decodeLossy` turns any bytes into characters and puts one U+FFFD in the place of each
maximal ill-formed part. -/

namespace JsonPull.Text

/-- U+FFFD, which stands for what could not be decoded. -/
def replacement : Char := '\uFFFD'

/-- Length of the sequence announced by its first byte; 1 for a byte that cannot begin a longer
sequence. -/
def sequenceLength (lead : UInt8) : Nat :=
  if 0xC2 ≤ lead && lead ≤ 0xDF then 2
  else if 0xE0 ≤ lead && lead ≤ 0xEF then 3
  else if 0xF0 ≤ lead && lead ≤ 0xF4 then 4
  else 1

/-- A byte of the form `10xxxxxx`. -/
def isContinuation (b : UInt8) : Bool :=
  0x80 ≤ b && b ≤ 0xBF

/-- A byte that may follow `lead` as the second of its sequence. The bounds beyond
`isContinuation` keep out overlong forms, surrogates and values above U+10FFFF. -/
def isSecond (lead second : UInt8) : Bool :=
  isContinuation second &&
    if lead == 0xE0 then 0xA0 ≤ second
    else if lead == 0xED then second ≤ 0x9F
    else if lead == 0xF0 then 0x90 ≤ second
    else if lead == 0xF4 then second ≤ 0x8F
    else true

/-- The six payload bits of a continuation byte, appended to the bits before it. -/
def pushBits (bits : Nat) (b : UInt8) : Nat :=
  bits * 64 + (b.toNat - 0x80)

/-- The character whose whole sequence is `bytes`, if they are one well-formed sequence. -/
def decodeSequence? : List UInt8 → Option Char
  | [a] => if a < 0x80 then some (Char.ofNat a.toNat) else none
  | [a, b] =>
    if sequenceLength a = 2 ∧ isSecond a b then
      some (Char.ofNat (pushBits (a.toNat - 0xC0) b))
    else none
  | [a, b, c] =>
    if sequenceLength a = 3 ∧ isSecond a b ∧ isContinuation c then
      some (Char.ofNat (pushBits (pushBits (a.toNat - 0xE0) b) c))
    else none
  | [a, b, c, d] =>
    if sequenceLength a = 4 ∧ isSecond a b ∧ isContinuation c ∧ isContinuation d then
      some (Char.ofNat (pushBits (pushBits (pushBits (a.toNat - 0xF0) b) c) d))
    else none
  | _ => none

/-- How many of the bytes after `lead` continue its sequence: all of them if the sequence is well
formed, else those of its maximal ill-formed part. -/
def continuationCount (lead : UInt8) (rest : List UInt8) : Nat :=
  match rest with
  | [] => 0
  | second :: more =>
    if 1 < sequenceLength lead && isSecond lead second then
      1 + ((more.take (sequenceLength lead - 2)).takeWhile isContinuation).length
    else 0

/-- Decodes bytes of any kind. The first argument counts bytes that already belong to the
character before. -/
def decodeLossyFrom : Nat → List UInt8 → List Char
  | _, [] => []
  | n + 1, _ :: rest => decodeLossyFrom n rest
  | 0, lead :: rest =>
    let n := continuationCount lead rest
    (decodeSequence? (lead :: rest.take n)).getD replacement :: decodeLossyFrom n rest

/-- The characters of `bytes`, with one U+FFFD for each maximal ill-formed part. -/
def decodeLossy (bytes : List UInt8) : List Char :=
  decodeLossyFrom 0 bytes

/-- The text of `bytes`, with one U+FFFD for each maximal ill-formed part. -/
def ofBytes (bytes : List UInt8) : String :=
  String.ofList (decodeLossy bytes)

/-- The bytes of a character. -/
def encode (c : Char) : List UInt8 :=
  String.utf8EncodeChar c

/-- The bytes of a text. -/
def toBytes (text : String) : List UInt8 :=
  text.toList.flatMap encode

@[simp] theorem decodeLossyFrom_nil (n : Nat) : decodeLossyFrom n [] = [] := by
  cases n <;> rfl

@[simp] theorem decodeLossy_nil : decodeLossy [] = [] := rfl

@[simp] theorem ofBytes_nil : ofBytes [] = "" := rfl

/-- Every byte of ASCII is a character of its own. -/
theorem decodeLossy_cons_ascii {b : UInt8} (h : b < 0x80) (rest : List UInt8) :
    decodeLossy (b :: rest) = Char.ofNat b.toNat :: decodeLossy rest := by
  have hl : sequenceLength b = 1 := by
    have h₁ : ¬ 0xC2 ≤ b := UInt8.not_le.mpr (UInt8.lt_of_lt_of_le h (by decide))
    have h₂ : ¬ 0xE0 ≤ b := UInt8.not_le.mpr (UInt8.lt_of_lt_of_le h (by decide))
    have h₃ : ¬ 0xF0 ≤ b := UInt8.not_le.mpr (UInt8.lt_of_lt_of_le h (by decide))
    simp [sequenceLength, h₁, h₂, h₃]
  have hc : continuationCount b rest = 0 := by
    cases rest <;> simp [continuationCount, hl]
  simp [decodeLossy, decodeLossyFrom, hc, decodeSequence?, h]

end JsonPull.Text
