import Mathlib
import JsonPull.Frame
import JsonPull.Value

/-! # Where a token stands

The place of a token follows from the tokens up to it: a container is around the token if it was
opened before it and not closed since, and the parts of the container tell its current name or
index. A token that ends a container stands where the start of the container stood. -/

namespace JsonPull.Outline

/-- A token with its value. -/
abbrev Entry := Token × Option Value

/-- What follows the start of a container, as long as it is open: how many containers are open
within it, and its own parts with the latest first. -/
structure Level where
  kind : Container
  below : Nat := 0
  parts : List Entry := []

namespace Level

/-- One entry more within a container; nothing if it closes the container. -/
def enter (e : Entry) (l : Level) : Option Level :=
  let parts := if l.below = 0 then e :: l.parts else l.parts
  match e.1 with
  | .opening _ => some { l with below := l.below + 1, parts }
  | .closing _ => if l.below = 0 then none else some { l with below := l.below - 1 }
  | _ => some { l with parts }

/-- A whole value, or the start of one. -/
def isElement (e : Entry) : Bool :=
  match e.1 with
  | .scalar _ => true
  | .opening _ => true
  | _ => false

/-- The name of a property. -/
def name? : Entry → Option String
  | (.propertyName, some (.string name)) => some name
  | _ => none

/-- The number of elements that were begun before the current one; -1 if there is none. -/
def index (l : Level) : Int := (l.parts.countP isElement : Int) - 1

/-- The step of a path through a container: the latest name in an object, else the index of the
current element. -/
def frame (l : Level) : Frame :=
  match l.kind with
  | .object => .object (l.parts.findSome? name?)
  | .array => .array l.index
  | .constructor => .constructor l.index

end Level

/-- The container that an entry opens, as it is behind the entries after it; nothing if it is closed
by then. -/
def level? (e : Entry) (rest : List Entry) : Option Level :=
  match e.1 with
  | .opening c => rest.foldlM (fun l e => l.enter e) { kind := c }
  | _ => none

/-- The containers around the last entry, the outermost first. -/
def enclosing : List Entry → List Level
  | [] => []
  | [_] => []
  | e :: rest => (level? e rest).toList ++ enclosing rest

/-- The steps of the path to the last entry. -/
def place (entries : List Entry) : List Frame :=
  (enclosing entries).map Level.frame

/-- The number of containers that entries open without closing them, if those that they close are
their own. -/
def nesting (entries : List Entry) : Int :=
  entries.countP (·.1.isStart) - entries.countP (·.1.isEnd)

/-- Entries between the start and the end of a container. -/
structure Within (entries : List Entry) : Prop where
  opened : ∀ before, before <+: entries → 0 ≤ nesting before
  closed : nesting entries = 0

instance (entries : List Entry) : Decidable (Within entries) :=
  decidable_of_iff ((∀ before ∈ entries.inits, 0 ≤ nesting before) ∧ nesting entries = 0)
    ⟨fun h => ⟨fun before hb => h.1 before ((List.mem_inits ..).mpr hb), h.2⟩,
      fun h => ⟨fun before hb => h.opened before ((List.mem_inits ..).mp hb), h.closed⟩⟩

/-- The place of the second number in `{"a":[1,{},2`. -/
example : place [(.opening .object, none), (.propertyName, some (.string "a")),
    (.opening .array, none), (.scalar .integer, some (.integer 1)), (.opening .object, none),
    (.closing .object, none), (.scalar .integer, some (.integer 2))] =
      [.object (some "a"), .array 2] := by
  decide

/-! ## Open containers as a stack -/

/-- How one part more of a container changes its step: to the next element, or to the property of a
name. -/
def part (e : Entry) (f : Frame) : Frame :=
  if Level.isElement e then f.advance else ((Level.name? e).map fun name => f.rename name).getD f

/-- How an entry changes the steps to what comes next, the innermost first. -/
def push (frames : List Frame) (e : Entry) : List Frame :=
  match e.1 with
  | .opening c => .fresh c :: frames.modifyHead (part e)
  | .closing _ => frames.tail
  | _ => frames.modifyHead (part e)

/-- The open containers behind entries, the innermost first. -/
def stack (entries : List Entry) : List Frame :=
  entries.foldl push []

/-- The steps to a token behind which these containers are open. A container is not around the token that
opens it. -/
def around (token : Token) (frames : List Frame) : List Frame :=
  (if token.isStart then frames.tail else frames).reverse

theorem stack_snoc (entries : List Entry) (e : Entry) :
    stack (entries ++ [e]) = push (stack entries) e :=
  List.foldl_concat ..

/-- The containers that were opened and not closed, the outermost first. -/
def unclosed : List Entry → List Level
  | [] => []
  | e :: rest => (level? e rest).toList ++ unclosed rest

theorem level?_snoc (e e' : Entry) (rest : List Entry) :
    level? e (rest ++ [e']) = (level? e rest).bind (Level.enter e') := by
  unfold level?
  split
  · rw [List.foldlM_append]
    simp
  · rfl

theorem unclosed_snoc (entries : List Entry) (e : Entry) :
    unclosed (entries ++ [e]) =
      (unclosed entries).filterMap (Level.enter e) ++ (level? e []).toList := by
  induction entries with
  | nil => simp [unclosed]
  | cons e' rest ih =>
      rw [List.cons_append, unclosed, ih, level?_snoc, unclosed, List.filterMap_append,
        List.append_assoc]
      cases level? e' rest with
      | none => rfl
      | some l => cases h : l.enter e <;> simp [h]

theorem unclosed_eq_enclosing (entries : List Entry) (e : Entry) :
    unclosed (entries ++ [e]) = enclosing (entries ++ [e]) ++ (level? e []).toList := by
  induction entries with
  | nil => simp [unclosed, enclosing]
  | cons e' rest ih =>
      have henclosing : enclosing (e' :: (rest ++ [e])) =
          (level? e' (rest ++ [e])).toList ++ enclosing (rest ++ [e]) := by
        cases rest <;> rfl
      rw [List.cons_append, unclosed, ih, henclosing, List.append_assoc]

/-- Each container is around the next: so many are open within it. -/
def Nested : Nat → List Level → Prop
  | _, [] => True
  | k, l :: ls => l.below = k ∧ Nested (k + 1) ls

/-- An entry changes nothing of the containers around the innermost one but how many are open within
them. -/
theorem nested_enter (e : Entry) {k : Nat} {ls : List Level} (h : Nested (k + 1) ls) :
    ((ls.filterMap (Level.enter e)).map Level.frame = ls.map Level.frame) ∧
      Nested (if e.1.isStart then k + 2 else if e.1.isEnd then k else k + 1)
        (ls.filterMap (Level.enter e)) := by
  induction ls generalizing k with
  | nil => exact ⟨rfl, trivial⟩
  | cons l ls ih =>
      obtain ⟨hbelow, hrest⟩ := h
      obtain ⟨hframes, hnested⟩ := ih hrest
      obtain ⟨token, value⟩ := e
      obtain ⟨kind, below, parts⟩ := l
      obtain rfl : below = k + 1 := hbelow
      cases token <;>
        exact ⟨congrArg (List.cons _) hframes, ⟨rfl, hnested⟩⟩

theorem frame_part (e : Entry) (kind : Container) (below : Nat) (parts : List Entry) :
    (Level.mk kind below (e :: parts)).frame = part e (Level.mk kind below parts).frame := by
  unfold part
  by_cases helement : Level.isElement e = true
  · have hname : Level.name? e = none := by
      obtain ⟨token, value⟩ := e
      cases token <;> simp_all [Level.isElement, Level.name?]
    rw [if_pos helement]
    cases kind <;>
      simp [Level.frame, Level.index, Frame.advance, helement, hname]
  · rw [if_neg helement]
    cases hname : Level.name? e <;> cases kind <;>
      simp [Level.frame, Level.index, Frame.rename, helement, hname]

/-- An entry changes the open containers as it changes the stack. -/
theorem enter_eq (e : Entry) {ls : List Level} (h : Nested 0 ls) :
    (((level? e []).toList.reverse ++ ls.filterMap (Level.enter e)).map Level.frame =
      push (ls.map Level.frame) e) ∧
      Nested 0 ((level? e []).toList.reverse ++ ls.filterMap (Level.enter e)) := by
  cases ls with
  | nil =>
      obtain ⟨token, value⟩ := e
      cases token <;> try exact ⟨rfl, trivial⟩
      next c => cases c <;> exact ⟨rfl, rfl, trivial⟩
  | cons l ls =>
      obtain ⟨hbelow, hrest⟩ := h
      obtain ⟨hframes, hnested⟩ := nested_enter e hrest
      obtain ⟨kind, below, parts⟩ := l
      obtain rfl : below = 0 := hbelow
      have hpart (below' : Nat) : (Level.mk kind below' (e :: parts)).frame =
          part e (Level.mk kind 0 parts).frame := frame_part e kind below' parts
      obtain ⟨token, value⟩ := e
      cases token with
      | opening c =>
          have hfresh : (Level.mk c 0 []).frame = Frame.fresh c := by cases c <;> rfl
          exact ⟨congrArg₂ List.cons hfresh (congrArg₂ List.cons (hpart 1) hframes),
            rfl, rfl, hnested⟩
      | closing c => exact ⟨hframes, hnested⟩
      | _ => exact ⟨congrArg₂ List.cons (hpart 0) hframes, rfl, hnested⟩

/-- The containers that were left open make the stack. -/
theorem stack_eq (entries : List Entry) :
    ((unclosed entries).reverse.map Level.frame = stack entries) ∧
      Nested 0 (unclosed entries).reverse := by
  induction entries using List.reverseRecOn with
  | nil => exact ⟨rfl, trivial⟩
  | append_singleton es e ih =>
      obtain ⟨hframes, hnested⟩ := ih
      rw [stack_snoc, ← hframes, unclosed_snoc, List.reverse_append, ← List.filterMap_reverse]
      generalize (unclosed es).reverse = ls at hnested
      exact enter_eq e hnested

theorem place_snoc (entries : List Entry) (e : Entry) :
    place (entries ++ [e]) = around e.1 (stack (entries ++ [e])) := by
  have hstack := (stack_eq (entries ++ [e])).1
  rw [unclosed_eq_enclosing, List.reverse_append] at hstack
  rw [place, ← hstack]
  obtain ⟨token, value⟩ := e
  cases token <;> simp [level?, Token.isStart, around]

/-! ## Balanced entries -/

theorem nesting_snoc (entries : List Entry) (e : Entry) :
    nesting (entries ++ [e]) =
      nesting entries + (if e.1.isStart then 1 else 0) - (if e.1.isEnd then 1 else 0) := by
  simp only [nesting, List.countP_append, List.countP_singleton]
  split <;> split <;> omega

/-- What is behind the start of a container stays on the stack as long as the container is open. -/
theorem foldl_push {inner : List Entry} (hopened : ∀ before, before <+: inner → 0 ≤ nesting before)
    (f : Frame) (fs : List Frame) :
    ∃ top, inner.foldl push (f :: fs) = top ++ fs ∧ (top.length : Int) = nesting inner + 1 := by
  induction inner using List.reverseRecOn with
  | nil => exact ⟨[f], rfl, rfl⟩
  | append_singleton es e ih =>
      obtain ⟨top, htop, hlength⟩ :=
        ih fun before h => hopened before (h.trans (List.prefix_append es [e]))
      have hinside := hopened es (List.prefix_append es [e])
      have hnext := hopened _ (List.prefix_refl _)
      rw [nesting_snoc] at hnext ⊢
      rw [List.foldl_concat, htop]
      obtain ⟨g, top, rfl⟩ : ∃ g top', top = g :: top' := by
        cases top with
        | nil => simp at hlength; omega
        | cons g top => exact ⟨g, top, rfl⟩
      obtain ⟨token, value⟩ := e
      cases token with
      | opening c => exact ⟨_ :: _ :: top, rfl, by simpa [Token.isStart, Token.isEnd] using hlength⟩
      | closing c =>
          refine ⟨top, rfl, ?_⟩
          simp [Token.isStart, Token.isEnd] at hlength ⊢
          omega
      | _ => exact ⟨_ :: top, rfl, by simpa [Token.isStart, Token.isEnd] using hlength⟩

/-- A token that ends a container stands where the start of the container stood. -/
theorem place_end (before : List Entry) {e e' : Entry} {inner : List Entry}
    (hstart : e.1.isStart = true) (hend : e'.1.isEnd = true) (hinner : Within inner) :
    place (before ++ e :: inner ++ [e']) = place (before ++ [e]) := by
  obtain ⟨start, value⟩ := e
  obtain ⟨stop, value'⟩ := e'
  cases start with
  | opening c => ?_
  | _ => cases hstart
  cases stop with
  | closing c' => ?_
  | _ => cases hend
  obtain ⟨top, htop, hlength⟩ := foldl_push hinner.opened (.fresh c)
    ((stack before).modifyHead (part (.opening c, value)))
  rw [hinner.closed] at hlength
  obtain ⟨g, rfl⟩ : ∃ g, top = [g] := List.length_eq_one_iff.mp (by omega)
  have hinside : stack (before ++ (.opening c, value) :: inner) =
      g :: (stack before).modifyHead (part (.opening c, value)) := by
    rw [stack, List.foldl_append]
    exact htop
  rw [place_snoc, place_snoc, stack_snoc, stack_snoc, hinside]
  rfl

end JsonPull.Outline
