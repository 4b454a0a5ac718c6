import JsonPull.Number.Digits

/-! # GUIDs

A GUID is written as 32 hexadecimal digits in groups of 8, 4, 4, 4 and 12. Its bytes have the
first three groups with the least significant byte first. -/

namespace JsonPull.Guid

/-- The bytes of pairs of hexadecimal digits. -/
def hexBytes? : List UInt8 → Option (List UInt8)
  | [] => some []
  | high :: low :: rest => do
    let h ← Number.hexValue? high
    let l ← Number.hexValue? low
    let bytes ← hexBytes? rest
    return UInt8.ofNat (16 * h + l) :: bytes
  | _ => none

/-- The hyphen between groups. -/
def hyphen : UInt8 := 0x2D

/-- The bytes of a GUID in its hyphenated form, in digits of either case. -/
def ofBytes? (text : List UInt8) : Option (List UInt8) := do
  let group (first last : Nat) : List UInt8 := (text.take last).drop first
  if text.length = 36 ∧ ∀ place ∈ [8, 13, 18, 23], text[place]? = some hyphen then
    let a ← hexBytes? (group 0 8)
    let b ← hexBytes? (group 9 13)
    let c ← hexBytes? (group 14 18)
    let d ← hexBytes? (group 19 23)
    let e ← hexBytes? (group 24 36)
    return a.reverse ++ b.reverse ++ c.reverse ++ d ++ e
  else none

end JsonPull.Guid
