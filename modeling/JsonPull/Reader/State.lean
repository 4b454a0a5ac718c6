import JsonPull.Frame
import JsonPull.Lines
import JsonPull.Options
import JsonPull.Phase
import JsonPull.Value

/-! # The state of a reader

What a reader knows apart from the bytes: the current token, the phase, the open containers and
the lines. Publishing a token changes all of them together, by the rules of this module. -/

namespace JsonPull

/-- A part of the stream, from the offset `first` up to the offset `last`. -/
structure Span where
  first : Nat
  last : Nat
deriving DecidableEq, Repr

/-- Where the value of the current token is: nowhere, still in the window, or here. -/
inductive Slot where
  | empty
  | held (span : Span)
  | owned (value : Value)
deriving DecidableEq

/-- What a reader knows. The innermost open container comes first. -/
structure State where
  lines : Lines := {}
  phase : Phase := .start
  token : Token := .none
  slot : Slot := .empty
  quote : Option UInt8 := none
  frames : List Frame := []
deriving DecidableEq

namespace State

/-- The path of the current token. A container that has just been opened is not part of it. -/
def path (s : State) : String :=
  match s.phase with
  | .opened _ => Frame.path s.frames.tail.reverse
  | _ => Frame.path s.frames.reverse

/-- The number of containers around the current token. -/
def depth (s : State) : Nat :=
  if s.token.isStart then s.frames.length - 1 else s.frames.length

/-- The innermost open container. -/
def innermost? (s : State) : Option Container :=
  s.frames.head?.map Frame.kind

/-- Moves the innermost container to its next element. -/
def countElement (s : State) : State :=
  match s.frames with
  | [] => s
  | f :: rest => { s with frames := f.advance :: rest }

/-- Waits for what follows a whole value. -/
def completeValue (settings : Settings) (s : State) : State :=
  { s with
    phase := if s.frames.isEmpty && !settings.multipleValues then .finished else .postValue }

/-- Waits for the next part of the innermost container, or for the next value at top level. -/
def resumeContainer (settings : Settings) (s : State) : State :=
  { s with
    phase := match s.innermost? with
      | some c => .within c
      | none => if settings.multipleValues then .start else .finished }

/-- Publishes a scalar. `counted` tells whether it is an element that was not counted before. -/
def publishScalar (settings : Settings) (kind : Scalar) (slot : Slot) (counted : Bool) (s : State) :
    State :=
  let s := { s with token := .scalar kind, slot }.completeValue settings
  if counted then s.countElement else s

/-- Publishes the name of a property and moves the innermost object to it. -/
def publishName (name : String) (s : State) : State :=
  { s with
    token := .propertyName
    slot := .owned (.string name)
    phase := .property
    frames := match s.frames with
      | [] => []
      | f :: rest => f.rename name :: rest }

/-- Publishes the start of a container, which is an element of the one around it. -/
def publishOpening (container : Container) (slot : Slot) (s : State) : State :=
  { s with
    token := .opening container
    slot
    phase := .opened container
    frames := .fresh container :: s.countElement.frames }

/-- Publishes the end of a container and leaves the innermost one, whichever it is. -/
def publishClosing (container : Container) (s : State) : State :=
  { s with token := .closing container, slot := .empty, frames := s.frames.tail }

/-- Publishes a comment, which changes nothing else. -/
def publishComment (slot : Slot) (s : State) : State :=
  { s with token := .comment, slot }

/-- Publishes that there is no token. -/
def publishNothing (s : State) : State :=
  { s with token := .none, slot := .empty }

/-- Forgets the value of the token before. -/
def clearSlot (s : State) : State :=
  { s with slot := .empty }

/-- Behind a separator, a part of a container is due, or a document, or the end. -/
theorem phase_resumeContainer_cases (settings : Settings) (s : State) :
    (∃ c, (s.resumeContainer settings).phase = .within c) ∨
      (s.resumeContainer settings).phase = .start ∨
      (s.resumeContainer settings).phase = .finished := by
  unfold resumeContainer
  dsimp only
  split
  · exact .inl ⟨_, rfl⟩
  · split
    · exact .inr (.inl rfl)
    · exact .inr (.inr rfl)

theorem phase_resumeContainer (settings : Settings) (s : State) :
    (s.resumeContainer settings).phase ≠ .postValue := by
  rcases phase_resumeContainer_cases settings s with ⟨c, h⟩ | h | h <;> rw [h] <;> nofun

theorem resumeContainer_ne_closed (settings : Settings) (s : State) :
    (s.resumeContainer settings).phase ≠ .closed := by
  rcases phase_resumeContainer_cases settings s with ⟨c, h⟩ | h | h <;> rw [h] <;> nofun

@[simp] theorem frames_publishOpening (c : Container) (slot : Slot) (s : State) :
    (s.publishOpening c slot).frames = .fresh c :: s.countElement.frames := rfl

@[simp] theorem depth_publishOpening (c : Container) (slot : Slot) (s : State) :
    (s.publishOpening c slot).depth = s.frames.length := by
  cases h : s.frames <;> simp [depth, publishOpening, Token.isStart, countElement, h]

@[simp] theorem kinds_countElement (s : State) :
    s.countElement.frames.map Frame.kind = s.frames.map Frame.kind := by
  unfold countElement
  split
  · rfl
  · rename_i h
    simp [h]

end State

end JsonPull
