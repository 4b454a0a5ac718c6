import Mathlib
import JsonPull.Phase

/-! # Words of tokens

The tokens of values, and of a text that ends before its values do. Whatever was begun can be
finished, one container at a time. -/

namespace JsonPull.Grammar

mutual

/-- The tokens of a value. -/
inductive IsValue : List Token → Prop where
  | scalar (kind : Scalar) : IsValue [.scalar kind]
  | object {ts : List Token} (h : AreMembers ts) :
      IsValue (.opening .object :: ts ++ [.closing .object])
  | elements {c : Container} {ts : List Token} (hc : c ≠ .object) (h : AreValues ts) :
      IsValue (.opening c :: ts ++ [.closing c])

/-- The tokens of properties, each a name and a value. -/
inductive AreMembers : List Token → Prop where
  | nil : AreMembers []
  | cons {v ms : List Token} (hv : IsValue v) (hms : AreMembers ms) :
      AreMembers (.propertyName :: v ++ ms)

/-- The tokens of any number of values. -/
inductive AreValues : List Token → Prop where
  | nil : AreValues []
  | cons {v vs : List Token} (hv : IsValue v) (hvs : AreValues vs) : AreValues (v ++ vs)

end

/-- The tokens of a whole text. -/
def IsText (multiple : Bool) (ts : List Token) : Prop :=
  if multiple then AreValues ts else IsValue ts

theorem AreValues.snoc {v : List Token} (hv : IsValue v) :
    ∀ {vs : List Token}, AreValues vs → AreValues (vs ++ v)
  | _, .nil => by simpa using AreValues.cons hv .nil
  | _, .cons hw hvs => by
      rw [List.append_assoc]
      exact .cons hw (hvs.snoc hv)

theorem AreMembers.snoc {v : List Token} (hv : IsValue v) :
    ∀ {ms : List Token}, AreMembers ms → AreMembers (ms ++ .propertyName :: v)
  | _, .nil => by simpa using AreMembers.cons hv .nil
  | _, .cons hw hms => by
      rw [List.append_assoc]
      exact .cons hw (hms.snoc hv)

/-! ## Words that were begun -/

/-- The tokens so far, with the containers that are still open, the innermost first. The flag tells
that a property waits for its value. Single values leave nothing open behind them. -/
inductive Begun (multiple : Bool) : List Container → Bool → List Token → Prop where
  | top {ts : List Token} (h : if multiple then AreValues ts else ts = []) :
      Begun multiple [] false ts
  | object {cs : List Container} {named : Bool} {ts ms : List Token} (h : Begun multiple cs named ts)
      (hready : cs.head? = some .object → named = true) (hms : AreMembers ms) :
      Begun multiple (.object :: cs) false (ts ++ .opening .object :: ms)
  | name {cs : List Container} {ts : List Token} (h : Begun multiple (.object :: cs) false ts) :
      Begun multiple (.object :: cs) true (ts ++ [.propertyName])
  | elements {c : Container} {cs : List Container} {named : Bool} {ts vs : List Token}
      (h : Begun multiple cs named ts) (hready : cs.head? = some .object → named = true)
      (hc : c ≠ .object) (hvs : AreValues vs) :
      Begun multiple (c :: cs) false (ts ++ .opening c :: vs)

/-- Behind a value: more may follow, or the text is complete. -/
def Behind (multiple : Bool) (cs : List Container) (ts : List Token) : Prop :=
  Begun multiple cs false ts ∨ cs = [] ∧ multiple = false ∧ IsValue ts

variable {multiple named : Bool} {cs : List Container} {c : Container} {ts v : List Token}

theorem Begun.push (h : Begun multiple cs named ts)
    (hready : cs.head? = some .object → named = true) (hv : IsValue v) :
    Behind multiple cs (ts ++ v) := by
  cases h with
  | top h =>
      cases multiple with
      | true => exact .inl (.top (AreValues.snoc hv h))
      | false =>
          obtain rfl : ts = [] := h
          exact .inr ⟨rfl, rfl, hv⟩
  | object h hr hms => simp at hready
  | name h =>
      cases h with
      | object h hr hms =>
          left
          simp only [List.append_assoc, List.cons_append, List.nil_append]
          exact .object h hr (hms.snoc hv)
      | elements h hr hc hvs => exact absurd rfl hc
  | elements h hr hc hvs =>
      left
      simp only [List.append_assoc, List.cons_append]
      exact .elements h hr hc (hvs.snoc hv)

/-- A container that is opened as a value. -/
theorem Begun.open (h : Begun multiple cs named ts)
    (hready : cs.head? = some .object → named = true) (c : Container) :
    Begun multiple (c :: cs) false (ts ++ [.opening c]) := by
  by_cases hc : c = .object
  · subst hc
    exact .object h hready .nil
  · exact .elements h hready hc .nil

/-- Closing the innermost container completes a value of the one around it. -/
theorem Begun.close (h : Begun multiple (c :: cs) false ts) :
    Behind multiple cs (ts ++ [.closing c]) := by
  cases h with
  | object h hready hms =>
      rw [List.append_assoc]
      exact h.push hready (.object hms)
  | elements h hready hc hvs =>
      rw [List.append_assoc]
      exact h.push hready (.elements hc hvs)

/-- What was begun can be finished. -/
theorem Begun.finish (h : Begun multiple cs named ts) : ∃ rest, IsText multiple (ts ++ rest) := by
  induction cs generalizing named ts with
  | nil =>
      cases h with
      | top h =>
          cases multiple with
          | true => exact ⟨[], by simpa [IsText] using h⟩
          | false =>
              obtain rfl : ts = [] := h
              exact ⟨[.scalar .null], IsValue.scalar .null⟩
  | cons c cs ih =>
      -- A name gets a value, and then the innermost container can be closed.
      have hclosed : ∀ {ts}, Begun multiple (c :: cs) false ts →
          ∃ rest, IsText multiple (ts ++ rest) := by
        intro ts h
        rcases h.close with hbegun | ⟨rfl, rfl, hvalue⟩
        · obtain ⟨rest, hrest⟩ := ih hbegun
          exact ⟨.closing c :: rest, by simpa using hrest⟩
        · exact ⟨[.closing c], by simpa [IsText] using hvalue⟩
      cases named with
      | false => exact hclosed h
      | true =>
          rcases h.push (fun _ => rfl) (.scalar .null) with h | ⟨h, -⟩
          · obtain ⟨rest, hrest⟩ := hclosed h
            exact ⟨.scalar .null :: rest, by simpa using hrest⟩
          · cases h

theorem Behind.finish (h : Behind multiple cs ts) : ∃ rest, IsText multiple (ts ++ rest) := by
  rcases h with hbegun | ⟨-, rfl, hvalue⟩
  · exact hbegun.finish
  · exact ⟨[], by simpa [IsText] using hvalue⟩

end JsonPull.Grammar
