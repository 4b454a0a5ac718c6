import JsonPull.Stream.Feed

/-! # Scans

A scan is a program that asks its questions about a stream one at a time and goes on by the
answers. It knows nothing of windows, capacities and fetches: a feed answers the questions, and so
does a mere list of bytes. What a scan does with one, it does with the other. -/

namespace JsonPull

/-- A question about the stream at the cursor. Offsets count from the start of the stream. -/
inductive Query where
  /-- The byte so far ahead of the cursor, or nothing behind the end. -/
  | byte (ahead : Nat) (retain : Retain)
  /-- Consume so many bytes. -/
  | advance (count : Nat)
  /-- A token with a long body begins here. -/
  | settle
  /-- The offset of the cursor. -/
  | cursor
  /-- The offset so many bytes on, to which the cursor goes and from which it comes back. -/
  | past (count : Nat)
  /-- The offset so many bytes back, in the current token. -/
  | behind (count : Nat)
  /-- The bytes between two offsets are referred to, and may be asked for later. -/
  | hold (first last : Nat)
  /-- The bytes between two offsets that lie behind the start of the current token. -/
  | slice (first last : Nat)
  /-- The bytes between two offsets that were referred to. -/
  | resolve (first last : Nat)
  /-- A bound on the bytes from the cursor on. -/
  | budget
deriving DecidableEq, Repr

/-- What a question is answered with. -/
abbrev Query.Answer : Query → Type
  | byte _ _ => Except FetchFault (Option UInt8)
  | advance _ => Unit
  | settle => Unit
  | cursor => Nat
  | past _ => Nat
  | behind _ => Nat
  | hold _ _ => Unit
  | slice _ _ => Option (List UInt8)
  | resolve _ _ => Option (List UInt8)
  | budget => Nat

/-- A program that asks questions about a stream and ends with a result. -/
inductive Scan (α : Type) where
  | done (result : α)
  | ask (query : Query) (next : query.Answer → Scan α)

namespace Scan

/-- Goes on with a scan that depends on the result. -/
def bind {α β : Type} : Scan α → (α → Scan β) → Scan β
  | done a, f => f a
  | ask q next, f => ask q fun answer => (next answer).bind f

instance : Monad Scan where
  pure := done
  bind := bind

/-- Asks one question. -/
def query (q : Query) : Scan q.Answer := ask q done

@[simp] theorem bind_done {α β : Type} (a : α) (f : α → Scan β) : (done a).bind f = f a := rfl

@[simp] theorem bind_ask {α β : Type} (q : Query) (next : q.Answer → Scan α) (f : α → Scan β) :
    (ask q next).bind f = ask q fun answer => (next answer).bind f := rfl

@[simp] theorem bind_pure {α : Type} (scan : Scan α) : scan.bind done = scan := by
  induction scan with
  | done a => rfl
  | ask q next ih => simp [ih]

theorem bind_assoc {α β γ : Type} (scan : Scan α) (f : α → Scan β) (g : β → Scan γ) :
    (scan.bind f).bind g = scan.bind fun a => (f a).bind g := by
  induction scan with
  | done a => rfl
  | ask q next ih => simp [ih]

instance : LawfulMonad Scan :=
  LawfulMonad.mk' Scan bind_pure (fun _ _ => rfl) bind_assoc

/-- Runs a scan, where `answer` answers a question in a state and gives the state after it. -/
def runWith {α σ : Type} (answer : (q : Query) → σ → q.Answer × σ) : Scan α → σ → α × σ
  | done a, s => (a, s)
  | ask q next, s => let (a, s) := answer q s; (next a).runWith answer s

theorem runWith_bind {α β σ : Type} (answer : (q : Query) → σ → q.Answer × σ) (scan : Scan α)
    (f : α → Scan β) (s : σ) :
    (scan.bind f).runWith answer s =
      (f (scan.runWith answer s).1).runWith answer (scan.runWith answer s).2 := by
  induction scan generalizing s with
  | done a => rfl
  | ask q next ih => simp [runWith, ih]

/-- What every answer keeps true of the state, every scan keeps true. -/
theorem runWith_invariant {α σ : Type} (holds : σ → Prop)
    (answer : (q : Query) → σ → q.Answer × σ) (h : ∀ q s, holds s → holds (answer q s).2)
    (scan : Scan α) {s : σ} (hs : holds s) : holds (scan.runWith answer s).2 := by
  induction scan generalizing s with
  | done a => exact hs
  | ask q next ih => exact ih _ (h q s hs)

end Scan

namespace Feed

/-- How a feed answers a question. -/
def answer : (q : Query) → Feed → q.Answer × Feed
  | .byte ahead retain, feed => feed.byte? ahead retain
  | .advance count, feed => ((), { feed with window := feed.window.advance count })
  | .settle, feed => ((), { feed with window := feed.window.settle })
  | .cursor, feed => (feed.window.cursor, feed)
  | .past count, feed => (feed.window.cursor + count, feed)
  | .behind count, feed => (feed.window.cursor - count, feed)
  | .hold _ _, feed => ((), feed)
  | .slice first last, feed => (feed.window.slice? first last, feed)
  | .resolve first last, feed => (feed.window.slice? first last, feed)
  | .budget, feed => (feed.budget, feed)

/-- Runs a scan on a feed. -/
def run {α : Type} (scan : Scan α) (feed : Feed) : α × Feed :=
  scan.runWith answer feed

end Feed

end JsonPull
