import JsonPull.Proofs.Quotation.Body
import JsonPull.Proofs.Reading.Outcome

/-! # Strings with a stray backslash

A backslash that begins no escape is never passed, whatever stands before it. So a closed string is
either well-formed or not read at all. -/

namespace JsonPull

open JsonPull.Json JsonPull.Quotation

variable {settings : Settings} {stream bytes rest body digits : List UInt8} {s : State}
  {pos n : Nat} {quote b : UInt8}

/-! ## Hexadecimal digits -/

namespace Json

end Json

/-! ## Stray backslashes -/

namespace Quotation

/-- What makes no escape behind a backslash. -/
structure IsStray (bytes : List UInt8) : Prop where
  letter : ∀ b c more, bytes = b :: more → (b, c) ∉ letters
  unit : ∀ digits n more, bytes = 0x75 :: (digits ++ more) → ¬ IsUnit digits n

/-- What is well-formed up to a stray backslash, behind an opening quote. -/
inductive Strays (quote : UInt8) : List UInt8 → Prop where
  | byte {b : UInt8} {bytes : List UInt8} (hquote : b ≠ quote) (hbackslash : b ≠ 0x5C)
      (h : Strays quote bytes) : Strays quote (b :: bytes)
  | letter {b : UInt8} {c : Char} {bytes : List UInt8} (hletter : (b, c) ∈ letters)
      (h : Strays quote bytes) : Strays quote (0x5C :: b :: bytes)
  | unit {n : Nat} {digits bytes : List UInt8} (hunit : IsUnit digits n)
      (h : Strays quote bytes) : Strays quote (0x5C :: 0x75 :: (digits ++ bytes))
  | stray {bytes : List UInt8} (h : IsStray bytes) : Strays quote (0x5C :: bytes)

theorem IsClosed.behind (hdigits : ∀ b ∈ digits, b ≠ 0x5C) (h : IsClosed quote (digits ++ body)) :
    IsClosed quote body := by
  induction digits with
  | nil => exact h
  | cons d digits ih =>
      have hd := hdigits d List.mem_cons_self
      generalize hbytes : d :: digits ++ body = bytes at h
      cases h with
      | nil => cases hbytes
      | byte hquote hbackslash hrest =>
          obtain ⟨rfl, rfl⟩ := List.cons.inj hbytes
          exact ih (fun b hb => hdigits b (List.mem_cons_of_mem _ hb)) hrest
      | escape hrest => exact absurd (List.cons.inj hbytes).1 hd

end Quotation

namespace Reading

/-! ## Escapes -/

end Reading

end JsonPull
