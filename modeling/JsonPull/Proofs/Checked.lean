/-! # Checked programs

A checked program stops where an index is out of range or a number does not fit its word. That one
never stops is what is proved of it. -/

namespace JsonPull

/-- Why a run must stop: the cursor would leave the fetched bytes, an index is out of range or
negative, a number does not fit its word, or the bytes at an index were moved since it was taken. -/
inductive Trap where
  | cursor
  | index
  | overflow
  | stale
deriving DecidableEq, Repr

abbrev Checked := Except Trap

/-- Goes on only where `p` holds. -/
def check (p : Prop) [Decidable p] (trap : Trap) : Checked Unit :=
  if p then .ok () else .error trap

theorem check_of {p : Prop} [Decidable p] (h : p) (trap : Trap) : check p trap = .ok () :=
  if_pos h

theorem Checked.bind_of {α β : Type} {x : Checked α} {a : α} {f : α → Checked β} (h : x = .ok a) :
    x >>= f = f a := by
  rw [h]
  rfl

end JsonPull
