import JsonPull.Stream.Source

/-! # Input in chunks

Splitting a text into about equal parts without breaking a character, and sources that deliver
their bytes a few at a time. Neither works with chunks of nothing. -/

namespace JsonPull.Chunk

/-- A number of parts or bytes that must not be zero. -/
inductive Misuse where
  | noParts
  | noBytes
deriving DecidableEq, Repr

def Misuse.message : Misuse → String
  | noParts => "assertion failed: parts > 0"
  | noBytes => "assertion failed: chunk > 0"

/-- A source that delivers at most `size` bytes at a time, wherever characters end. -/
def source (data : ByteArray) (size : Nat) : Except Misuse Source :=
  if size = 0 then .error .noBytes else .ok { Source.ofBytes data with limit := some size }

/-- Takes characters while fewer than `size` bytes are taken. Answers them and the rest. -/
def take (size : Nat) : List Char → List Char × List Char
  | [] => ([], [])
  | c :: rest =>
    if size = 0 then ([], c :: rest)
    else
      let (taken, left) := take (size - c.utf8Size) rest
      (c :: taken, left)

theorem take_append (size : Nat) (chars : List Char) :
    (take size chars).1 ++ (take size chars).2 = chars := by
  induction chars generalizing size with
  | nil => rfl
  | cons c rest ih =>
    unfold take
    split
    · rfl
    · simp [ih]

theorem length_take_lt {size : Nat} (h : 0 < size) (c : Char) (rest : List Char) :
    (take size (c :: rest)).2.length < (c :: rest).length := by
  have h₁ := congrArg List.length (take_append size (c :: rest))
  have h₂ : 0 < (take size (c :: rest)).1.length := by
    simp [take, Nat.ne_of_gt h]
  simp only [List.length_append] at h₁
  omega

/-- Splits characters into chunks that are longer than `size` bytes only to keep a character
whole. -/
def splitAt (size : Nat) (h : 0 < size) (chars : List Char) : List (List Char) :=
  match chars with
  | [] => []
  | c :: rest => (take size (c :: rest)).1 :: splitAt size h (take size (c :: rest)).2
termination_by chars.length
decreasing_by exact length_take_lt h c rest

/-- The chunks of a text that is to be split into `parts` parts: each takes the part of the bytes
that is its due, rounded up, and goes on to the end of a character. -/
def split (text : String) (parts : Nat) : Except Misuse (List String) :=
  if parts = 0 then .error .noParts
  else
    let size := (text.utf8ByteSize + parts - 1) / parts
    .ok (if h : 0 < size then (splitAt size h text.toList).map String.ofList else [])

theorem flatten_splitAt (size : Nat) (h : 0 < size) (chars : List Char) :
    (splitAt size h chars).flatten = chars := by
  fun_induction splitAt size h chars with
  | case1 => rfl
  | case2 c rest ih => rw [List.flatten_cons, ih, take_append]

end JsonPull.Chunk
