import JsonPull.Text.Ranges

/-! # Blank characters

What separates tokens: the characters with the property White_Space. Texts that are converted to
numbers lose the blanks around them, and the bodies of comments lose the ASCII blanks. -/

namespace JsonPull.Text

/-- The characters beyond ASCII with the property White_Space. -/
def blankRanges : List (Nat × Nat) :=
  [(0x85, 0x85), (0xA0, 0xA0), (0x1680, 0x1680), (0x2000, 0x200A), (0x2028, 0x2029),
   (0x202F, 0x202F), (0x205F, 0x205F), (0x3000, 0x3000)]

/-- A byte that is a blank character by itself: space, or one of U+0009 to U+000D. -/
def isBlankByte (b : UInt8) : Bool :=
  b == 0x20 || (0x09 ≤ b && b ≤ 0x0D)

/-- A character with the property White_Space. -/
def isBlank (c : Char) : Bool :=
  c == ' ' || (0x09 ≤ c.toNat && c.toNat ≤ 0x0D) || inRanges blankRanges c

/-- `xs` without the leading and the trailing elements that satisfy `drop`. -/
def trimBoth {α : Type} (drop : α → Bool) (xs : List α) : List α :=
  ((xs.dropWhile drop).reverse.dropWhile drop).reverse

/-- `text` without the blanks around it. -/
def trim (text : String) : String :=
  String.ofList (trimBoth isBlank text.toList)

/-- A byte that is trimmed from the ends of a comment: tab, line feed, form feed, carriage return
or space. The vertical tab stays. -/
def isMarginByte (b : UInt8) : Bool :=
  b == 0x20 || b == 0x09 || b == 0x0A || b == 0x0C || b == 0x0D

theorem isBlank_of_isWhitespace {c : Char} (h : c.isWhitespace = true) : isBlank c = true := by
  simp only [Char.isWhitespace, Bool.or_eq_true, decide_eq_true_eq] at h
  rcases h with ((rfl | rfl) | rfl) | rfl <;> rfl

end JsonPull.Text
