/-! # Base64

Standard Base64 with padding. A text is rejected for one cause, and the causes are looked for in a
fixed order: a stray last byte, the full quads from left to right, then the last quad. -/

namespace JsonPull.Base64

/-- Why a text is no Base64. Offsets count bytes. -/
inductive Fault where
  | symbol (byte : UInt8) (offset : Nat)
  | lastSymbol (byte : UInt8) (offset : Nat)
  | length (count : Nat)
  | padding
deriving DecidableEq, Repr

def Fault.message : Fault → String
  | .symbol byte offset => "Invalid symbol " ++ toString byte.toNat ++ ", offset " ++
      toString offset ++ "."
  | .lastSymbol byte offset => "Invalid last symbol " ++ toString byte.toNat ++ ", offset " ++
      toString offset ++ "."
  | .length count => "Invalid input length: " ++ toString count
  | .padding => "Invalid padding"

/-- The padding byte. -/
def pad : UInt8 := 0x3D

/-- The six bits of a symbol. -/
def value? (b : UInt8) : Option Nat :=
  if 0x41 ≤ b && b ≤ 0x5A then some (b.toNat - 0x41)
  else if 0x61 ≤ b && b ≤ 0x7A then some (b.toNat - 0x61 + 26)
  else if 0x30 ≤ b && b ≤ 0x39 then some (b.toNat - 0x30 + 52)
  else if b == 0x2B then some 62
  else if b == 0x2F then some 63
  else none

/-- The values of symbols, or the first byte that is none. -/
def values (offset : Nat) : List UInt8 → Except Fault (List Nat)
  | [] => .ok []
  | b :: rest =>
    match value? b with
    | none => .error (.symbol b offset)
    | some v => (values (offset + 1) rest).map (v :: ·)

/-- The values of the last quad, which may end in padding from its third place on. `index` is the
place of the next byte, and `firstPad` the place where the padding began. -/
def lastValues (offset index : Nat) (firstPad : Option Nat) : List UInt8 → Except Fault (List Nat)
  | [] => .ok []
  | b :: rest =>
    if b == pad then
      if index < 2 then .error (.symbol b (offset + index))
      else lastValues offset (index + 1) (firstPad.or (some index)) rest
    else
      match firstPad, value? b with
      | some place, _ => .error (.symbol pad (offset + place))
      | none, none => .error (.symbol b (offset + index))
      | none, some v => (lastValues offset (index + 1) none rest).map (v :: ·)

/-- The bytes of a group of two to four symbols. -/
def groupBytes : List Nat → List UInt8
  | [a, b, c, d] =>
    [UInt8.ofNat (a * 4 + b / 16), UInt8.ofNat (b % 16 * 16 + c / 4), UInt8.ofNat (c % 4 * 64 + d)]
  | [a, b, c] => [UInt8.ofNat (a * 4 + b / 16), UInt8.ofNat (b % 16 * 16 + c / 4)]
  | [a, b] => [UInt8.ofNat (a * 4 + b / 16)]
  | _ => []

/-- The bytes of full groups. -/
def groupsBytes : List Nat → List UInt8
  | a :: b :: c :: d :: rest => groupBytes [a, b, c, d] ++ groupsBytes rest
  | _ => []

/-- The bits of the last group that belong to no byte. -/
def leftover : List Nat → Nat
  | [_, b] => b % 16
  | [_, _, c] => c % 4
  | _ => 0

/-- Decodes the last quad, which starts at `offset`. -/
def decodeLast (offset : Nat) (quad : List UInt8) : Except Fault (List UInt8) :=
  match lastValues offset 0 none quad with
  | .error fault => .error fault
  | .ok symbols =>
    if symbols.length < 2 then .error (.length (offset + symbols.length))
    else if quad.length ≠ 4 then .error .padding
    else if leftover symbols ≠ 0 then
      .error (.lastSymbol ((quad[symbols.length - 1]?).getD 0) (offset + symbols.length - 1))
    else .ok (groupBytes symbols)

/-- A last byte beyond full quads that can be neither a symbol nor padding. -/
def strayByte? (text : List UInt8) : Option UInt8 :=
  if text.length % 4 = 1 then text.getLast?.filter fun b => b != pad && (value? b).isNone
  else none

/-- Decodes Base64 without blanks. Nothing decodes to nothing. -/
def decode (text : List UInt8) : Except Fault (List UInt8) :=
  match strayByte? text with
  | some b => .error (.symbol b (text.length - 1))
  | none =>
    if text.isEmpty then .ok []
    else
      let offset := (text.length - 1) / 4 * 4
      match values 0 (text.take offset) with
      | .error fault => .error fault
      | .ok symbols => (decodeLast offset (text.drop offset)).map (groupsBytes symbols ++ ·)

theorem value?_lt {b : UInt8} {v : Nat} (h : value? b = some v) : v < 64 := by
  simp only [value?, Bool.and_eq_true, decide_eq_true_eq, UInt8.le_iff_toNat_le] at h
  split at h
  · simp_all; omega
  · split at h
    · simp_all; omega
    · split at h
      · simp_all; omega
      · split at h
        · simp_all; omega
        · split at h <;> simp_all
          omega

theorem decode_nil : decode [] = .ok [] := rfl

end JsonPull.Base64
