import Mathlib
import JsonPull.Frame

/-! # The steps of a path

A path is written step by step: a name stands behind a dot, or between brackets and quotes where its
characters ask for it, and an index stands between brackets. Each step ends where the next one
begins, so that the text tells the steps. Only an empty name at the front leaves no trace, not even
the dot of the step behind it. -/

namespace JsonPull

/-- A step into a container: to the property of a name, or to the element of an index. -/
inductive PathStep where
  | name (name : String)
  | index (index : Int)
deriving DecidableEq, Repr

/-- The step to the current part of a container; an object without a property has none. -/
def Frame.step? : Frame → Option PathStep
  | object name => name.map .name
  | array i | constructor i => some (.index i)

namespace PathStep

/-- A step that is written without brackets: a name without characters that need them. -/
def IsBare : PathStep → Prop
  | name n => n.toList.any Frame.needsBrackets = false
  | index _ => False

instance : DecidablePred IsBare
  | name _ => decEq _ _
  | index _ => instDecidableFalse

/-- A step as it is written at the front of a path. -/
def lead : PathStep → List Char
  | name n =>
      if (name n).IsBare then n.toList
      else '[' :: '\x27' :: n.toList.flatMap Frame.escapeChar ++ ['\x27', ']']
  | index i => '[' :: (toString i).toList ++ [']']

/-- A step as it is written behind another one. -/
def text (step : PathStep) : List Char :=
  if step.IsBare then '.' :: step.lead else step.lead

/-- The text of a path that begins with any step but an empty name. -/
def written : List PathStep → List Char
  | [] => []
  | step :: steps => step.lead ++ steps.flatMap text

variable {step step' : PathStep} {steps steps' : List PathStep} {more more' : List Char}

/-! ## One step -/

theorem lead_bare {n : String} (h : (name n).IsBare) : (name n).lead = n.toList :=
  if_pos h

theorem lead_quoted {n : String} (h : ¬(name n).IsBare) :
    (name n).lead = '[' :: '\x27' :: n.toList.flatMap Frame.escapeChar ++ ['\x27', ']'] :=
  if_neg h

theorem text_of_bare (h : step.IsBare) : step.text = '.' :: step.lead :=
  if_pos h

theorem text_of_not_bare (h : ¬step.IsBare) : step.text = step.lead :=
  if_neg h

theorem IsBare.not_needsBrackets {n : String} (h : (name n).IsBare) {c : Char} (hc : c ∈ n.toList) :
    Frame.needsBrackets c = false := by
  unfold IsBare at h
  simpa using List.any_eq_false.mp h c hc

/-- What is not a bare name begins with a bracket. -/
theorem head?_lead (h : ¬step.IsBare) (more : List Char) : (step.lead ++ more).head? = some '[' := by
  cases step with
  | name n => rw [lead_quoted h]; rfl
  | index i => rfl

theorem lead_eq_nil (h : step.lead = []) : step = name "" := by
  cases step with
  | name n =>
      by_cases hbare : (name n).IsBare
      · rw [lead_bare hbare] at h
        rw [String.toList_eq_nil_iff.mp h]
      · simp [lead_quoted hbare] at h
  | index i => simp [lead] at h

/-- What can follow a step: nothing, or a character that no bare name has. -/
def Ends (more : List Char) : Prop :=
  ∀ c, more.head? = some c → Frame.needsBrackets c = true

theorem ends_steps (steps : List PathStep) : Ends (steps.flatMap text) := by
  intro c hc
  cases steps with
  | nil => cases hc
  | cons step steps =>
      rw [List.flatMap_cons] at hc
      by_cases hbare : step.IsBare
      · rw [text_of_bare hbare] at hc
        cases hc
        rfl
      · rw [text_of_not_bare hbare, head?_lead hbare] at hc
        cases hc
        rfl

/-! ## A text tells where its steps end -/

/-- A bare name ends at the first character that it cannot have. -/
theorem bare_unique {n n' : String} (h : (name n).IsBare) (h' : (name n').IsBare)
    (hmore : Ends more) (hmore' : Ends more') (heq : n.toList ++ more = n'.toList ++ more') :
    n = n' ∧ more = more' := by
  have htake : ∀ {cs more : List Char}, (∀ c ∈ cs, Frame.needsBrackets c = false) → Ends more →
      (cs ++ more).takeWhile (!Frame.needsBrackets ·) = cs := by
    intro cs more hcs hmore
    rw [List.takeWhile_append_of_pos (by simpa using hcs)]
    cases more with
    | nil => simp
    | cons c more => simp [hmore c rfl]
  have hname : n.toList = n'.toList := by
    rw [← htake (fun c => h.not_needsBrackets) hmore, ← htake (fun c => h'.not_needsBrackets) hmore', heq]
  refine ⟨String.toList_injective hname, ?_⟩
  rw [hname] at heq
  exact List.append_cancel_left heq

/-- A character as it stands between quotes tells itself, and is never taken for the quote behind. -/
theorem escapeChar_unique {c c' : Char}
    (heq : Frame.escapeChar c ++ more = Frame.escapeChar c' ++ more') : c = c' ∧ more = more' := by
  simp only [Frame.escapeChar] at heq
  split at heq <;> split at heq <;> simp_all
  all_goals
    obtain ⟨rfl, -⟩ := heq
    simp_all

theorem escapeChar_ne_quote (c : Char) : Frame.escapeChar c ++ more ≠ '\x27' :: more' := by
  intro heq
  simp only [Frame.escapeChar] at heq
  split at heq <;> simp_all

/-- The escaped characters of a name end at the first quote that is not escaped. -/
theorem escaped_unique {cs cs' : List Char}
    (heq : cs.flatMap Frame.escapeChar ++ '\x27' :: more =
      cs'.flatMap Frame.escapeChar ++ '\x27' :: more') : cs = cs' ∧ more = more' := by
  induction cs generalizing cs' with
  | nil =>
      cases cs' with
      | nil => exact ⟨rfl, (List.cons.inj heq).2⟩
      | cons c' cs' =>
          rw [List.flatMap_cons, List.append_assoc] at heq
          exact absurd heq.symm (escapeChar_ne_quote c')
  | cons c cs ih =>
      rw [List.flatMap_cons, List.append_assoc] at heq
      cases cs' with
      | nil => exact absurd heq (escapeChar_ne_quote c)
      | cons c' cs' =>
          rw [List.flatMap_cons, List.append_assoc] at heq
          obtain ⟨rfl, hrest⟩ := escapeChar_unique heq
          obtain ⟨rfl, hmore⟩ := ih hrest
          exact ⟨rfl, hmore⟩

theorem mem_toString {i : Int} {c : Char} (hc : c ∈ (toString i).toList) :
    c.isDigit = true ∨ c = '-' := by
  have hdigits : ∀ {n : Nat}, c ∈ (Nat.repr n).toList → c.isDigit = true := by
    intro n hn
    rw [Nat.repr_eq_ofList_toDigits, String.toList_ofList] at hn
    exact Nat.isDigit_of_mem_toDigits (by decide) (by decide) hn
  rw [Int.toString_eq_repr, Int.repr_eq_if] at hc
  split at hc
  · exact .inl (hdigits hc)
  · rw [String.toList_append, List.mem_append] at hc
    rcases hc with hc | hc
    · exact .inr (by simpa using hc)
    · exact .inl (hdigits hc)

/-- An index ends at its bracket. -/
theorem index_unique {i i' : Int}
    (heq : (toString i).toList ++ ']' :: more = (toString i').toList ++ ']' :: more') :
    i = i' ∧ more = more' := by
  have htake : ∀ (i : Int) (more : List Char),
      ((toString i).toList ++ ']' :: more).takeWhile (· ≠ ']') = (toString i).toList := by
    intro i more
    rw [List.takeWhile_append_of_pos, List.takeWhile_cons_of_neg (by simp), List.append_nil]
    intro c hc
    rcases mem_toString hc with hdigit | rfl
    · simp only [decide_eq_true_eq]
      rintro rfl
      cases hdigit
    · decide
  have hindex : (toString i).toList = (toString i').toList := by
    rw [← htake i more, ← htake i' more', heq]
  refine ⟨Int.repr_injective (String.toList_injective hindex), ?_⟩
  rw [hindex] at heq
  exact (List.cons.inj (List.append_cancel_left heq)).2

/-- The quote behind the bracket tells a name from an index. -/
theorem quoted_ne_index {n : String} {i : Int} (hn : ¬(name n).IsBare) :
    (name n).lead ++ more ≠ (index i).lead ++ more' := by
  rw [lead_quoted hn]
  intro heq
  have heq : '\x27' :: (n.toList.flatMap Frame.escapeChar ++ ['\x27', ']'] ++ more) =
      (toString i).toList ++ ([']'] ++ more') := by
    simpa [lead] using heq
  cases hchars : (toString i).toList with
  | nil =>
      rw [hchars] at heq
      cases heq
  | cons c cs =>
      obtain rfl : '\x27' = c := by
        rw [hchars] at heq
        exact (List.cons.inj heq).1
      have hmem : '\x27' ∈ (toString i).toList := hchars ▸ List.mem_cons_self
      rcases mem_toString hmem with h | h <;> cases h

theorem bracketed_unique (h : ¬step.IsBare) (h' : ¬step'.IsBare)
    (heq : step.lead ++ more = step'.lead ++ more') : step = step' ∧ more = more' := by
  cases step with
  | name n =>
      cases step' with
      | name n' =>
          rw [lead_quoted h, lead_quoted h'] at heq
          have hescaped : n.toList.flatMap Frame.escapeChar ++ '\x27' :: ']' :: more =
              n'.toList.flatMap Frame.escapeChar ++ '\x27' :: ']' :: more' := by
            simpa using heq
          obtain ⟨hname, hmore⟩ := escaped_unique hescaped
          exact ⟨congrArg name (String.toList_injective hname), by simpa using hmore⟩
      | index i' => exact absurd heq (quoted_ne_index h)
  | index i =>
      cases step' with
      | name n' => exact absurd heq.symm (quoted_ne_index h')
      | index i' =>
          have hdigits : (toString i).toList ++ ']' :: more =
              (toString i').toList ++ ']' :: more' := by
            simpa [lead] using heq
          obtain ⟨hindex, hmore⟩ := index_unique hdigits
          exact ⟨congrArg index hindex, hmore⟩

/-- Two steps of a kind are told apart by their texts at the front. -/
theorem lead_unique (h : step.IsBare ↔ step'.IsBare) (hmore : Ends more) (hmore' : Ends more')
    (heq : step.lead ++ more = step'.lead ++ more') : step = step' ∧ more = more' := by
  by_cases hbare : step.IsBare
  · have hbare' := h.mp hbare
    cases step with
    | name n =>
        cases step' with
        | name n' =>
            rw [lead_bare hbare, lead_bare hbare'] at heq
            obtain ⟨rfl, hmore⟩ := bare_unique hbare hbare' hmore hmore' heq
            exact ⟨rfl, hmore⟩
        | index i' => exact hbare'.elim
    | index i => exact hbare.elim
  · exact bracketed_unique hbare (mt h.mpr hbare) heq

/-! ## All steps -/

/-- Behind the front, the dot tells a bare name, even an empty one, from the other steps. -/
theorem text_unique (hmore : Ends more) (hmore' : Ends more')
    (heq : step.text ++ more = step'.text ++ more') : step = step' ∧ more = more' := by
  by_cases hbare : step.IsBare
  · by_cases hbare' : step'.IsBare
    · rw [text_of_bare hbare, text_of_bare hbare'] at heq
      exact lead_unique (iff_of_true hbare hbare') hmore hmore' (List.cons.inj heq).2
    · rw [text_of_bare hbare, text_of_not_bare hbare'] at heq
      have hhead := head?_lead hbare' more'
      rw [← heq] at hhead
      cases hhead
  · by_cases hbare' : step'.IsBare
    · rw [text_of_not_bare hbare, text_of_bare hbare'] at heq
      have hhead := head?_lead hbare more
      rw [heq] at hhead
      cases hhead
    · rw [text_of_not_bare hbare, text_of_not_bare hbare'] at heq
      exact lead_unique (iff_of_false hbare hbare') hmore hmore' heq

theorem text_ne_nil (step : PathStep) : step.text ≠ [] := by
  by_cases hbare : step.IsBare
  · rw [text_of_bare hbare]
    nofun
  · intro h
    have hhead := head?_lead hbare []
    rw [← text_of_not_bare hbare, h] at hhead
    cases hhead

theorem texts_unique (heq : steps.flatMap text = steps'.flatMap text) : steps = steps' := by
  induction steps generalizing steps' with
  | nil =>
      cases steps' with
      | nil => rfl
      | cons step' steps' =>
          rw [List.flatMap_cons, List.flatMap_nil, eq_comm, List.append_eq_nil_iff] at heq
          exact absurd heq.1 (text_ne_nil step')
  | cons step steps ih =>
      cases steps' with
      | nil =>
          rw [List.flatMap_cons, List.flatMap_nil, List.append_eq_nil_iff] at heq
          exact absurd heq.1 (text_ne_nil step)
      | cons step' steps' =>
          obtain ⟨rfl, hsteps⟩ := text_unique (ends_steps steps) (ends_steps steps') heq
          rw [ih hsteps]

/-- At the front, a bare name begins with a character that it has, and so not with a bracket. -/
theorem bare_of_lead (hstep : step ≠ name "") (hbare : step.IsBare)
    (heq : step.lead ++ more = step'.lead ++ more') : step'.IsBare := by
  by_contra hbare'
  have hhead := head?_lead hbare' more'
  rw [← heq] at hhead
  cases step with
  | name n =>
      rw [lead_bare hbare] at hhead
      cases hchars : n.toList with
      | nil => exact hstep (congrArg name (String.toList_eq_nil_iff.mp hchars))
      | cons c cs =>
          obtain rfl : c = '[' := by simpa [hchars] using hhead
          have hplain := hbare.not_needsBrackets (c := '[') (hchars ▸ List.mem_cons_self)
          cases hplain
  | index i => exact hbare

/-- The text of a path tells its steps, unless it begins with an empty name. -/
theorem written_unique (hsteps : steps.head? ≠ some (name ""))
    (hsteps' : steps'.head? ≠ some (name "")) (heq : written steps = written steps') :
    steps = steps' := by
  cases steps with
  | nil =>
      cases steps' with
      | nil => rfl
      | cons step' steps' =>
          rw [written, written, eq_comm, List.append_eq_nil_iff] at heq
          exact absurd (congrArg some (lead_eq_nil heq.1)) hsteps'
  | cons step steps =>
      cases steps' with
      | nil =>
          rw [written, written, List.append_eq_nil_iff] at heq
          exact absurd (congrArg some (lead_eq_nil heq.1)) hsteps
      | cons step' steps' =>
          rw [written, written] at heq
          have hkind : step.IsBare ↔ step'.IsBare :=
            ⟨fun h => bare_of_lead (by simpa using hsteps) h heq,
              fun h => bare_of_lead (by simpa using hsteps') h heq.symm⟩
          obtain ⟨rfl, hrest⟩ := lead_unique hkind (ends_steps steps) (ends_steps steps') heq
          rw [texts_unique hrest]

end PathStep

/-! ## The path through containers -/

namespace Frame

open PathStep

variable {p : String} {frame : Frame} {frames frames' : List Frame} {step : PathStep}

/-- An empty name at the front of a path. -/
def IsUnseen (step : PathStep) : Bool := step = .name ""

theorem toList_extend (hframe : frame.step? = some step) :
    (extend p frame).toList = p.toList ++ if p.isEmpty then step.lead else step.text := by
  cases frame with
  | object name? =>
      cases name? with
      | none => cases hframe
      | some name =>
          cases hframe
          rw [extend, String.toList_append, nameStep]
          by_cases hbare : (PathStep.name name).IsBare
          · rw [if_neg (Bool.eq_false_iff.mp hbare), text_of_bare hbare, lead_bare hbare]
            split <;> simp
          · rw [if_pos (Bool.of_not_eq_false hbare), text_of_not_bare hbare, lead_quoted hbare]
            split <;> simp
  | array i | constructor i =>
      cases hframe
      simp [extend, PathStep.text, PathStep.lead, PathStep.IsBare]

theorem extend_none (hframe : frame.step? = none) : extend p frame = p := by
  cases frame with
  | object name? =>
      cases name? with
      | none => rfl
      | some name => cases hframe
  | array i | constructor i => cases hframe

/-- Behind a path that is not empty, each step is written with its mark. -/
theorem toList_foldl_extend (hp : p.isEmpty = false) (frames : List Frame) :
    (frames.foldl extend p).toList = p.toList ++ (frames.filterMap step?).flatMap text := by
  induction frames generalizing p with
  | nil => simp
  | cons frame frames ih =>
      rw [List.foldl_cons]
      cases hframe : frame.step? with
      | none =>
          rw [extend_none hframe, ih hp, List.filterMap_cons_none hframe]
      | some step =>
          have htext := toList_extend (p := p) hframe
          rw [hp, if_neg Bool.false_ne_true] at htext
          have hne : (extend p frame).isEmpty = false := by
            rw [String.isEmpty_eq_false_iff, ne_eq, ← String.toList_eq_nil_iff, htext]
            simp [text_ne_nil]
          rw [ih hne, htext, List.filterMap_cons_some hframe, List.flatMap_cons, List.append_assoc]

/-- A path is the text of its steps without the empty names at the front. -/
theorem toList_path (frames : List Frame) :
    (path frames).toList = written ((frames.filterMap step?).dropWhile IsUnseen) := by
  unfold path
  induction frames with
  | nil => rfl
  | cons frame frames ih =>
      rw [List.foldl_cons]
      cases hframe : frame.step? with
      | none => rw [extend_none hframe, ih, List.filterMap_cons_none hframe]
      | some step =>
          have htext : (extend "" frame).toList = step.lead := toList_extend hframe
          rw [List.filterMap_cons_some hframe]
          by_cases hunseen : step = .name ""
          · subst hunseen
            rw [String.toList_eq_nil_iff.mp htext, ih, List.dropWhile_cons_of_pos (by rfl)]
          · have hne : (extend "" frame).isEmpty = false := by
              rw [String.isEmpty_eq_false_iff, ne_eq, ← String.toList_eq_nil_iff, htext]
              exact mt lead_eq_nil hunseen
            rw [toList_foldl_extend hne, htext,
              List.dropWhile_cons_of_neg (by simpa [IsUnseen] using hunseen), written]

/-- Two paths are the same text exactly if their steps are the same behind the empty names at the
front. -/
theorem path_eq_iff : path frames = path frames' ↔
    (frames.filterMap step?).dropWhile IsUnseen = (frames'.filterMap step?).dropWhile IsUnseen := by
  have hhead : ∀ steps : List PathStep, (steps.dropWhile IsUnseen).head? ≠ some (.name "") := by
    intro steps hname
    have hseen := List.head?_dropWhile_not IsUnseen steps
    rw [hname] at hseen
    exact absurd hseen (by decide)
  rw [← String.toList_inj, toList_path, toList_path]
  exact ⟨written_unique (hhead _) (hhead _), congrArg written⟩

end Frame

end JsonPull
