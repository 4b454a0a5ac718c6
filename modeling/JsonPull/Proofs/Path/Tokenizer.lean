import JsonPull.Proofs.Numbering.Tokenizer
import JsonPull.Proofs.Path.Steps

/-! # What a path tells about a tokenizer

The path of a token is the text of the steps into the containers around it. -/

namespace JsonPull

/-- The steps of the path, through the visible containers from the outermost one. -/
def State.steps (s : State) : List PathStep :=
  s.visible.reverse.filterMap Frame.step?

namespace Tokenizer

/-- Paths are the same text exactly if they have the same steps behind the empty names at their
front. In particular, of two paths that begin with no empty name, each tells all of its steps. -/
theorem path_tells_steps (t t' : Tokenizer) :
    t.path = t'.path ↔
      t.state.steps.dropWhile Frame.IsUnseen = t'.state.steps.dropWhile Frame.IsUnseen := by
  unfold path
  rw [State.path_visible, State.path_visible]
  exact Frame.path_eq_iff

/-- The texts `{"":{"a":1}}` and `{"a":1}`. The values are at different places, but both paths are
`a`. -/
theorem empty_name_unseen :
    let nested : Source := { script := [.bytes ⟨#[0x7B, 0x22, 0x22, 0x3A, 0x7B, 0x22, 0x61, 0x22,
      0x3A, 0x31, 0x7D, 0x7D]⟩ 0] }
    let flat : Source := { script := [.bytes ⟨#[0x7B, 0x22, 0x61, 0x22, 0x3A, 0x31, 0x7D]⟩ 0] }
    let t := (ofSource { initialCapacity := 16 } nested {} false).afterAll
      [.call .read, .call .read, .call .read, .call .read, .call .read]
    let t' := (ofSource { initialCapacity := 16 } flat {} false).afterAll
      [.call .read, .call .read, .call .read]
    t.path = "a" ∧ t'.path = "a" ∧ t.state.steps = [.name "", .name "a"] ∧
      t'.state.steps = [.name "a"] := by
  decide +kernel

end Tokenizer

end JsonPull
