/-! # Powers of two and of ten

How many numbers so many bits or digits can write. The bounds of every number format below are
powers of the one, and the places of digits are powers of the other. -/

namespace JsonPull.Number

/-- The number of values that `width` bits can have. -/
def twoPow (width : Nat) : Nat := Nat.pow 2 width

/-- The number of values that `count` decimal digits can have. -/
def tenPow (count : Nat) : Nat := Nat.pow 10 count

@[simp] theorem twoPow_zero : twoPow 0 = 1 := rfl

theorem twoPow_succ (width : Nat) : twoPow (width + 1) = 2 * twoPow width :=
  Nat.mul_comm _ _

theorem twoPow_pos (width : Nat) : 0 < twoPow width := by
  induction width with
  | zero => decide
  | succ n ih => rw [twoPow_succ]; omega

theorem tenPow_succ (count : Nat) : tenPow (count + 1) = 10 * tenPow count :=
  Nat.mul_comm _ _

theorem tenPow_pos (count : Nat) : 0 < tenPow count := by
  induction count with
  | zero => decide
  | succ n ih => rw [tenPow_succ]; omega

end JsonPull.Number
