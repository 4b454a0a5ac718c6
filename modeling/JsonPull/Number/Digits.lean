/-! # Digits

Reading natural numbers from the bytes of a numeral, in any base up to 16. -/

namespace JsonPull.Number

/-- A decimal digit. -/
def isDigit (b : UInt8) : Bool :=
  0x30 ≤ b && b ≤ 0x39

/-- The value of a digit of either case, if it is one below base 16. -/
def hexValue? (b : UInt8) : Option Nat :=
  if 0x30 ≤ b && b ≤ 0x39 then some (b.toNat - 0x30)
  else if 0x61 ≤ b && b ≤ 0x66 then some (b.toNat - 0x61 + 10)
  else if 0x41 ≤ b && b ≤ 0x46 then some (b.toNat - 0x41 + 10)
  else none

/-- The value of a digit in the given base. -/
def digitValue? (base : Nat) (b : UInt8) : Option Nat :=
  (hexValue? b).filter (· < base)

/-- The number with the given digits of a base, the highest first. -/
def foldDigits (base : Nat) (digits : List Nat) : Nat :=
  digits.foldl (fun n d => base * n + d) 0

/-- The same number for numerals of any length: long ones are read in halves, `depth` times over,
because joining two large numbers once is cheaper than appending digit after digit to one. -/
def joinDigits (base : Nat) : Nat → List Nat → Nat
  | 0, digits => foldDigits base digits
  | depth + 1, digits =>
    if digits.length ≤ 16 then foldDigits base digits
    else
      let high := digits.take (digits.length / 2)
      let low := digits.drop (digits.length / 2)
      joinDigits base depth high * Nat.pow base low.length + joinDigits base depth low

/-- The number written by one or more digits. -/
def ofDigits? (base : Nat) (bytes : List UInt8) : Option Nat :=
  if bytes.isEmpty || !bytes.all (fun b => (digitValue? base b).isSome) then none
  else some (joinDigits base bytes.length (bytes.filterMap (digitValue? base)))

/-- The number written by decimal digits; nothing written is zero. -/
def ofDecimalDigits (bytes : List UInt8) : Nat :=
  joinDigits 10 bytes.length (bytes.map fun b => b.toNat - 0x30)

/-- Digits after at most one plus sign, as unsigned numbers are read. -/
def ofUnsigned? (base : Nat) (bytes : List UInt8) : Option Nat :=
  match bytes with
  | 0x2B :: digits => ofDigits? base digits
  | _ => ofDigits? base bytes

theorem foldl_digits (base n : Nat) (digits : List Nat) :
    digits.foldl (fun n d => base * n + d) n =
      n * Nat.pow base digits.length + foldDigits base digits := by
  induction digits generalizing n with
  | nil => simp [foldDigits]
  | cons d digits ih =>
    have hp : Nat.pow base (digits.length + 1) = Nat.pow base digits.length * base := rfl
    have h : n * (Nat.pow base digits.length * base) = base * n * Nat.pow base digits.length := by
      rw [Nat.mul_comm base n, Nat.mul_assoc, Nat.mul_comm base]
    simp only [foldDigits, List.foldl_cons, List.length_cons, hp]
    rw [ih (base * n + d), ih (base * 0 + d), Nat.add_mul, h, Nat.mul_zero, Nat.zero_add,
      Nat.add_assoc]

theorem foldDigits_append (base : Nat) (high low : List Nat) :
    foldDigits base (high ++ low) =
      foldDigits base high * Nat.pow base low.length + foldDigits base low := by
  rw [foldDigits, List.foldl_append, foldl_digits]
  rfl

/-- Reading a numeral in halves gives the number that its digits write one by one. -/
theorem joinDigits_eq_foldDigits (base depth : Nat) (digits : List Nat) :
    joinDigits base depth digits = foldDigits base digits := by
  induction depth generalizing digits with
  | zero => rfl
  | succ depth ih =>
    unfold joinDigits
    split
    · rfl
    · simp only [ih, ← foldDigits_append, List.take_append_drop]

theorem ofDecimalDigits_eq_foldl (bytes : List UInt8) :
    ofDecimalDigits bytes = bytes.foldl (fun n b => 10 * n + (b.toNat - 0x30)) 0 := by
  rw [ofDecimalDigits, joinDigits_eq_foldDigits, foldDigits, List.foldl_map]

@[simp] theorem ofDigits?_nil (base : Nat) : ofDigits? base [] = none := rfl

/-- Digits are read as the number that they write, and nothing else is read as a number. -/
theorem ofDigits?_eq_some_iff {base n : Nat} {bytes : List UInt8} :
    ofDigits? base bytes = some n ↔
      bytes ≠ [] ∧ (∀ b ∈ bytes, (digitValue? base b).isSome) ∧
        n = foldDigits base (bytes.filterMap (digitValue? base)) := by
  unfold ofDigits?
  rw [joinDigits_eq_foldDigits]
  by_cases hb : bytes = []
  · simp [hb]
  · by_cases hd : ∀ b ∈ bytes, (digitValue? base b).isSome = true
    · have ha : (bytes.all fun b => (digitValue? base b).isSome) = true := List.all_eq_true.mpr hd
      rw [if_neg (by simp [hb, ha])]
      exact ⟨fun h => ⟨hb, hd, (Option.some.inj h).symm⟩, fun h => congrArg some h.2.2.symm⟩
    · have ha : (bytes.all fun b => (digitValue? base b).isSome) = false :=
        Bool.eq_false_iff.mpr fun h => hd (List.all_eq_true.mp h)
      rw [if_pos (by simp [ha])]
      exact ⟨nofun, fun h => absurd h.2.1 hd⟩

end JsonPull.Number
