/-! # Pools of byte blocks

A pool lends blocks of bytes and keeps the ones that come back, so that few are allocated. It
hands out no block twice: a rented block leaves the list of free ones. -/

namespace JsonPull

/-- A block of `size` zeros. -/
def zeroBlock (size : Nat) : ByteArray :=
  ⟨Array.replicate size 0⟩

/-- The free blocks of a pool, how often it was asked, and how often it had to allocate. -/
structure Pool where
  free : List ByteArray := []
  rents : Nat := 0
  allocations : Nat := 0

namespace Pool

/-- The number of free blocks. -/
def available (pool : Pool) : Nat := pool.free.length

/-- The list without its element at `i`, whose place the last element takes. -/
def swapRemove {α : Type} (xs : List α) (i : Nat) : List α :=
  match xs.getLast? with
  | some last => (xs.set i last).dropLast
  | none => []

/-- Lends a block of zeros of at least `size` bytes: the first free one that is large enough, else
a new one. -/
def rent (pool : Pool) (size : Nat) : ByteArray × Pool :=
  let pool := { pool with rents := pool.rents + 1 }
  match pool.free.findIdx? (size ≤ ·.size) with
  | some i =>
    (zeroBlock ((pool.free[i]?.map ByteArray.size).getD 0),
      { pool with free := swapRemove pool.free i })
  | none => (zeroBlock size, { pool with allocations := pool.allocations + 1 })

/-- Takes a block back. -/
def release (pool : Pool) (block : ByteArray) : Pool :=
  { pool with free := pool.free ++ [block] }

@[simp] theorem size_zeroBlock (size : Nat) : (zeroBlock size).size = size := by
  simp [zeroBlock, ByteArray.size]

end Pool

end JsonPull
