import JsonPull.Proofs.Grammar.Outline

/-! # Whole values among the tokens

The tokens of a whole value are a scalar alone, or all from the start of a container to its end. Among
the tokens around them they count as one element, and how deep they are nested is told by how many
containers they leave open on the way. -/

namespace JsonPull.Outline

variable {entries entries' inner before : List Entry} {e : Entry}

theorem nesting_append (entries entries' : List Entry) :
    nesting (entries ++ entries') = nesting entries + nesting entries' := by
  simp only [nesting, List.countP_append]
  omega

theorem nesting_opening (c : Container) (value? : Option Value) :
    nesting [(.opening c, value?)] = 1 := rfl

theorem nesting_closing (c : Container) (value? : Option Value) :
    nesting [(.closing c, value?)] = -1 := rfl

/-! ## Balanced tokens -/

theorem Within.nil : Within [] where
  opened := by
    intro before hbefore
    rw [List.prefix_nil.mp hbefore]
    exact le_rfl
  closed := rfl

/-- What is balanced may be followed by what is. -/
theorem Within.append (h : Within entries) (h' : Within entries') : Within (entries ++ entries') where
  opened := by
    intro before hbefore
    rcases List.prefix_or_prefix_of_prefix hbefore (List.prefix_append entries entries') with
      hfirst | ⟨last, rfl⟩
    · exact h.opened before hfirst
    · have hlast := h'.opened last ((List.prefix_append_right_inj entries).mp hbefore)
      rwa [nesting_append, h.closed, zero_add]
  closed := by rw [nesting_append, h.closed, h'.closed, zero_add]

/-- A token that neither starts nor ends a container is balanced alone. -/
theorem within_singleton (hstart : e.1.isStart = false) (hend : e.1.isEnd = false) : Within [e] := by
  have hnesting : nesting [e] = 0 := by simp [nesting, hstart, hend]
  refine ⟨fun before hbefore => ?_, hnesting⟩
  rcases List.prefix_cons_iff.mp hbefore with rfl | ⟨last, rfl, hlast⟩
  · exact le_rfl
  · rw [List.prefix_nil.mp hlast, hnesting]

theorem Within.enclosed (h : Within inner) (c : Container) (value? value?' : Option Value) :
    Within ((.opening c, value?) :: inner ++ [(.closing c, value?')]) := by
  have hall : nesting ((.opening c, value?) :: inner ++ [(.closing c, value?')]) = 0 := by
    rw [List.cons_append, ← List.singleton_append, nesting_append, nesting_append, nesting_opening,
      nesting_closing, h.closed]
    rfl
  refine ⟨fun before hbefore => ?_, hall⟩
  rcases List.prefix_concat_iff.mp hbefore with rfl | hbefore
  · exact hall.ge
  · rcases List.prefix_cons_iff.mp hbefore with rfl | ⟨first, rfl, hfirst⟩
    · exact le_rfl
    · have hopened := h.opened first hfirst
      rw [← List.singleton_append, nesting_append, nesting_opening]
      omega

/-! ## Elements -/

/-- The tokens of a whole value. -/
inductive IsElement : List Entry → Prop where
  | scalar (kind : Scalar) (value? : Option Value) : IsElement [(.scalar kind, value?)]
  | enclosed (c : Container) {inner : List Entry} (h : Within inner) :
      IsElement ((.opening c, none) :: inner ++ [(.closing c, none)])

theorem IsElement.within (h : IsElement entries) : Within entries := by
  cases h with
  | scalar => exact within_singleton rfl rfl
  | enclosed c h => exact h.enclosed c none none

/-- A whole value is one element more of the innermost container. -/
theorem IsElement.foldl_push (h : IsElement entries) (frames : List Frame) :
    entries.foldl push frames = frames.modifyHead .advance := by
  cases h with
  | scalar => rfl
  | @enclosed c inner h =>
      obtain ⟨top, htop, hlength⟩ :=
        Outline.foldl_push h.opened (.fresh c) (frames.modifyHead (part (.opening c, none)))
      obtain ⟨g, rfl⟩ : ∃ g, top = [g] := by
        rw [h.closed] at hlength
        exact List.length_eq_one_iff.mp (by omega)
      rw [List.foldl_append, List.foldl_cons]
      exact congrArg List.tail htop

/-! ## Depths -/

theorem length_push (frames : List Frame) (e : Entry) :
    (push frames e).length =
      frames.length + (if e.1.isStart then 1 else 0) - (if e.1.isEnd then 1 else 0) := by
  obtain ⟨token, value⟩ := e
  cases token <;> simp [push, Token.isStart, Token.isEnd]

/-- As long as nothing is closed that was not opened, the stack holds what is open. -/
theorem length_stack (h : ∀ before, before <+: entries → 0 ≤ nesting before) :
    ((stack entries).length : Int) = nesting entries := by
  induction entries using List.reverseRecOn with
  | nil => rfl
  | append_singleton es e ih =>
      have hbefore := ih fun before hbefore => h before (hbefore.trans (List.prefix_append es [e]))
      have hopened := h _ (List.prefix_refl _)
      rw [nesting_snoc] at hopened ⊢
      rw [stack_snoc, length_push]
      split_ifs at hopened ⊢ <;> omega

/-- Within a whole value, its own containers are open. -/
theorem IsElement.stack_ne_nil (h : IsElement entries) (hbefore : before <+: entries)
    (hbegun : before ≠ []) (hgoes : before ≠ entries) : stack before ≠ [] := by
  have hlength := length_stack fun first hfirst => h.within.opened first (hfirst.trans hbefore)
  cases h with
  | scalar kind value? =>
      rcases List.prefix_cons_iff.mp hbefore with rfl | ⟨first, rfl, hfirst⟩
      · exact absurd rfl hbegun
      · exact absurd (congrArg _ (List.prefix_nil.mp hfirst)) hgoes
  | @enclosed c inner h =>
      have hprefix := (List.prefix_concat_iff.mp hbefore).resolve_left hgoes
      obtain ⟨first, rfl, hfirst⟩ := (List.prefix_cons_iff.mp hprefix).resolve_left hbegun
      have hopened := h.opened first hfirst
      intro hnil
      rw [hnil, List.length_nil, ← List.singleton_append, nesting_append, nesting_opening] at hlength
      omega

end JsonPull.Outline
