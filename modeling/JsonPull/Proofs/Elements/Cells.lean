import JsonPull.Proofs.Elements.Opening
import JsonPull.Proofs.Json.Sequence

/-! # Elements between commas

Between two commas there is a document or nothing but blanks. A blank place is an undefined element,
unless it is the last one, which is no element at all. -/

namespace JsonPull

open JsonPull.Json JsonPull.Outline

def Sighting.entry (x : Sighting) : Entry := (x.token, x.value?)

/-- The number of containers that are open behind a token. -/
def Sighting.nesting (x : Sighting) : Nat :=
  if x.token.isStart then x.depth + 1 else x.depth

/-- What stands between commas: blanks, or a document with the tokens that it gives alone. -/
inductive Cell where
  | blank (space : List UInt8)
  | document (text : List UInt8) (seen : List Sighting)

namespace Cell

def text : Cell → List UInt8
  | blank space => space
  | document text _ => text

/-- The blanks are blanks, and the document is read alone as it is said to be. -/
def Holds (options : Options) : Cell → Prop
  | blank space => IsSpace space
  | document text seen => IsJson text ∧ Tokenizer.Renders options text seen

/-- What is read in front of a comma. -/
def entries : Cell → List Entry
  | blank _ => [(.scalar .undefined, none)]
  | document _ seen => seen.map Sighting.entry

/-- The number of containers that are open at once. -/
def nesting : Cell → Nat
  | blank _ => 0
  | document _ seen => (seen.map Sighting.nesting).foldr max 0

/-- Cells with commas between them. -/
def row (cells : List Cell) : List UInt8 :=
  [0x2C].intercalate (cells.map text)

/-- The elements of a row: one for each cell, but none for a last one that is blank. -/
def elements : List Cell → List (List Entry)
  | [] => []
  | [blank _] => []
  | cell :: cells => cell.entries :: elements cells

end Cell

/-- The step to an element of a container. -/
def Frame.element : Container → Nat → Frame
  | .object, _ => .object none
  | .array, i => .array i
  | .constructor, i => .constructor i

/-- Elements with their places in a container, and each with its own tokens. -/
def Cell.sightings (place : List Frame) (c : Container) (cells : List Cell) : List Sighting :=
  ((elements cells).mapIdx fun i entries => placed (place ++ [.element c i]) [] entries).flatten

variable {settings : Settings} {stream rest : List UInt8} {phase : Phase} {kinds : List Container}
  {c : Container} {entries tokens : List Entry} {depth : Nat}

/-! ## Places of elements -/

theorem Frame.advance_fresh (c : Container) : (Frame.fresh c).advance = .element c 0 := by
  cases c <;> rfl

theorem Frame.advance_element (c : Container) (i : Nat) :
    (Frame.element c i).advance = .element c (i + 1) := by
  cases c <;> rfl

namespace Json

theorem map_entry_placed (outer : List Frame) (before entries : List Entry) :
    (placed outer before entries).map Sighting.entry = entries := by
  induction entries generalizing before with
  | nil => rfl
  | cons e entries ih => exact congrArg (List.cons e) (ih (before ++ [e]))

/-- An element is placed as if it was alone, behind the steps to it. -/
theorem standing_element (h : IsElement entries) (f : Frame) (fs : List Frame) :
    standing (f :: fs) entries = placed (f.advance :: fs).reverse [] entries := by
  cases entries with
  | nil => rfl
  | cons e entries =>
      have hfirst : push (f :: fs) e = stack [e] ++ f.advance :: fs ∧
          around e.1 (push (f :: fs) e) = (f.advance :: fs).reverse ++ place ([] ++ [e]) := by
        cases h <;> exact ⟨rfl, (List.append_nil _).symm⟩
      -- From the second token on, the element has a container of its own open.
      have hinside : ∀ first, first <+: entries → first ≠ entries → stack ([e] ++ first) ≠ [] :=
        fun first hfirst hne => h.stack_ne_nil ((List.prefix_cons_inj e).mpr hfirst)
          (List.cons_ne_nil _ _) (by simpa using hne)
      have hnext : standing (stack [e] ++ f.advance :: fs) entries =
          placed (f.advance :: fs).reverse [e] entries := standing_stack (.inr hinside)
      rw [standing, placed, hfirst.2, hfirst.1, hnext]
      rfl

/-- Elements are placed one after another. -/
theorem standing_elements {elements : List (List Entry)} (h : ∀ entries ∈ elements, IsElement entries)
    {f : Frame} {i : Nat} (hf : f.advance = .element c i) (fs : List Frame) :
    standing (f :: fs) elements.flatten = (elements.mapIdx fun k entries =>
        placed (fs.reverse ++ [.element c (i + k)]) [] entries).flatten ∧
      (elements.flatten.foldl push (f :: fs)).tail = fs := by
  induction elements generalizing f i with
  | nil => exact ⟨rfl, rfl⟩
  | cons entries elements ih =>
      obtain ⟨helement, hrest⟩ := List.forall_mem_cons.mp h
      have hnext : f.advance.advance = .element c (i + 1) := by rw [hf, Frame.advance_element]
      have hpush : entries.foldl push (f :: fs) = f.advance :: fs := helement.foldl_push _
      obtain ⟨hplaced, htail⟩ := ih hrest hnext
      rw [List.flatten_cons, List.foldl_append, hpush]
      refine ⟨?_, htail⟩
      rw [standing_append, hpush, standing_element helement, hplaced, hf, List.mapIdx_cons,
        List.flatten_cons, List.reverse_cons]
      simp only [Nat.add_zero, Nat.add_assoc, Nat.add_comm 1]

/-! ## How deep elements are -/

theorem of_mem_placed {outer : List Frame} {before first : List Entry} {e : Entry}
    (h : first ++ [e] <+: entries) :
    Sighting.of e (outer ++ place (before ++ first ++ [e])) ∈ placed outer before entries := by
  induction first generalizing before entries with
  | nil =>
      obtain ⟨rest, rfl⟩ := h
      rw [List.append_nil]
      exact List.mem_cons_self
  | cons e' first ih =>
      obtain ⟨rest, rfl⟩ := h
      have hmem : Sighting.of e (outer ++ place (before ++ [e'] ++ first ++ [e])) ∈
          placed outer (before ++ [e']) (first ++ [e] ++ rest) := ih (List.prefix_append _ rest)
      rw [List.append_assoc before] at hmem
      exact List.mem_cons_of_mem _ hmem

theorem nesting_of (e : Entry) (before : List Entry) :
    (stack (before ++ [e])).length ≤ (Sighting.of e (place (before ++ [e]))).nesting := by
  rw [Sighting.nesting, Sighting.of, place_snoc, around]
  dsimp only
  by_cases hstart : e.1.isStart = true
  · rw [if_pos hstart, if_pos hstart, List.length_reverse, List.length_tail]
    omega
  · rw [if_neg hstart, if_neg hstart, List.length_reverse]

/-- As deep as a value is said to be nested, one of its tokens shows. -/
theorem Nests.le_nesting (h : Nests .value tokens depth) :
    depth ≤ ((placed [] [] tokens).map Sighting.nesting).foldr max 0 := by
  obtain ⟨before, hbefore, hdepth⟩ := h.reached
  have hlength := length_stack fun first hfirst => h.within.opened first (hfirst.trans hbefore)
  cases before using List.reverseRecOn with
  | nil =>
      have hzero : (0 : Int) = depth := hlength.trans hdepth
      omega
  | append_singleton first e =>
      have hmem := @of_mem_placed tokens [] [] first e hbefore
      have hle := nesting_of e first
      refine (Nat.le_trans ?_ hle).trans (List.le_max_of_le (List.mem_map_of_mem hmem) le_rfl)
      omega

end Json

/-! ## Reading elements -/

/-- The tokens of a cell are what the reader finds in it, wherever it stands. -/
def Cell.Told (settings : Settings) : Cell → Prop
  | blank space => IsSpace space
  | document text seen => ∃ tokens, Recited settings text tokens ∧ seen = placed [] [] tokens

namespace Cell

variable {cell : Cell} {cells : List Cell}

theorem Told.isElement (h : cell.Told settings) : IsElement cell.entries := by
  cases cell with
  | blank space => exact .scalar .undefined none
  | document text seen =>
      obtain ⟨tokens, ⟨_, _, hrecites, _, _⟩, rfl⟩ := h
      rw [entries, map_entry_placed]
      exact hrecites.nests.element rfl

theorem Told.visible (h : cell.Told settings) :
    ∀ token ∈ cell.entries, token.1 ≠ .comment ∧ token.1 ≠ .none := by
  cases cell with
  | blank space => simp [entries]
  | document text seen =>
      obtain ⟨tokens, ⟨_, _, hrecites, _, _⟩, rfl⟩ := h
      rw [entries, map_entry_placed]
      exact hrecites.visible

theorem mem_elements {entries : List Entry} (h : entries ∈ elements cells) :
    ∃ cell ∈ cells, entries = cell.entries := by
  induction cells using elements.induct with
  | case1 => cases h
  | case2 => cases h
  | case3 cell cells hlast ih =>
      rw [elements.eq_3 cell cells hlast, List.mem_cons] at h
      rcases h with rfl | h
      · exact ⟨cell, List.mem_cons_self, rfl⟩
      · obtain ⟨cell', hcell', rfl⟩ := ih h
        exact ⟨cell', List.mem_cons_of_mem cell hcell', rfl⟩

end Cell

/-- A document is read wherever a value is due, as if it was alone. -/
theorem Json.Recited.reaches {r : Whole} {text : List UInt8} (h : Recited settings text tokens)
    (hphase : phase.expectsValue = true)
    (hdepth : Allows settings
      (kinds.length + ((placed [] [] tokens).map Sighting.nesting).foldr max 0))
    (hend : EndsWord phase rest)
    (hawaits : Reading.Awaits settings stream phase kinds (text ++ rest) r.state.clearSlot r.cursor) :
    ∃ blank, IsBlank blank ∧
      r.Reaches settings stream tokens (completed settings kinds) kinds (blank ++ rest) := by
  obtain ⟨hbefore, -, hrecites, -, hafter⟩ := h
  simp only [List.append_assoc] at hawaits
  have hle := hrecites.nests.le_nesting
  exact ⟨_, hafter, hrecites.reads settings.multipleValues stream hphase hbefore
    (hend.blanks (IsBlank.isSpace hafter)) (hdepth.mono (by omega)) hawaits⟩

/-- A cell is read up to what follows it; a blank one leaves the comma. -/
theorem Cell.Told.reaches {r : Whole} {cell : Cell} (h : cell.Told settings)
    (hexpects : phase.expectsValue = true) (hdepth : Allows settings (kinds.length + cell.nesting))
    (hend : EndsWord phase rest) (hcomma : ∀ space, cell = .blank space → ∃ more, rest = 0x2C :: more)
    (hawaits : Reading.Awaits settings stream phase kinds (cell.text ++ rest) r.state.clearSlot
      r.cursor) :
    ∃ blank, IsBlank blank ∧
      r.Reaches settings stream cell.entries (completed settings kinds) kinds (blank ++ rest) := by
  cases cell with
  | blank space =>
      obtain ⟨more, rfl⟩ := hcomma space rfl
      exact ⟨[], isBlank_nil, Whole.reaches_of_succeeds (hawaits.elided hexpects h)⟩
  | document text seen =>
      obtain ⟨tokens, hrecited, rfl⟩ := h
      rw [Cell.entries, map_entry_placed]
      exact hrecited.reaches hexpects hdepth hend hawaits

/-- What stands behind a cell ends a word. -/
theorem endsWord_mark (hphase : phase = .opened c ∨ phase = .within c) (rest : List UInt8) :
    EndsWord phase (Reading.mark c :: rest) := by
  cases c with
  | object | array => exact .mark (by decide)
  | constructor => exact .closing (by rcases hphase with rfl | rfl <;> rfl)

/-- Behind the start of a container or a comma, a row of cells is read with the end of the container. -/
theorem reaches_row {r : Whole} {cells : List Cell} (hc : c ≠ .object) (hne : cells ≠ [])
    (htold : ∀ cell ∈ cells, cell.Told settings)
    (hdepth : ∀ cell ∈ cells, Allows settings ((c :: kinds).length + cell.nesting))
    (hphase : phase = .opened c ∨ phase = .within c)
    (hawaits : Reading.Awaits settings stream phase (c :: kinds)
      (Cell.row cells ++ Reading.mark c :: rest) r.state.clearSlot r.cursor) :
    r.Reaches settings stream ((Cell.elements cells).flatten ++ [(.closing c, none)])
      (completed settings kinds) kinds rest := by
  have hexpects : ∀ {phase : Phase}, phase = .opened c ∨ phase = .within c →
      phase.expectsValue = true := by
    intro phase hphase
    cases c with
    | object => exact absurd rfl hc
    | array | constructor => rcases hphase with rfl | rfl <;> rfl
  induction cells using Cell.elements.induct generalizing r phase with
  | case1 => exact absurd rfl hne
  | case2 space =>
      have hspace : IsSpace space := htold _ List.mem_cons_self
      rw [Cell.row, List.map_singleton, List.intercalate_singleton] at hawaits
      exact Whole.reaches_of_succeeds (hawaits.closeElements hc (hexpects hphase) hspace)
  | case3 cell cells hlast ih =>
      obtain ⟨hcell, hcells⟩ := List.forall_mem_cons.mp htold
      obtain ⟨hallows, hdepths⟩ := List.forall_mem_cons.mp hdepth
      rw [Cell.elements.eq_3 cell cells hlast, List.flatten_cons, List.append_assoc]
      cases cells with
      | nil =>
          rw [Cell.row, List.map_singleton, List.intercalate_singleton] at hawaits
          obtain ⟨blank, hblank, hreaches⟩ := hcell.reaches (hexpects hphase) hallows
            (endsWord_mark hphase rest) (fun space hspace => absurd rfl (hlast space hspace)) hawaits
          exact hreaches.append fun r' h' => reaches_closing hblank h'
      | cons cell' cells =>
          rw [Cell.row, List.map_cons, List.map_cons, List.intercalate_cons_cons, List.append_assoc,
            List.append_assoc] at hawaits
          obtain ⟨blank, hblank, hreaches⟩ := hcell.reaches (hexpects hphase) hallows
            (.mark (by decide)) (fun _ _ => ⟨_, rfl⟩) hawaits
          exact hreaches.append fun r' h' => ih (List.cons_ne_nil _ _) hcells hdepths (.inr rfl)
            (Reading.awaits_comma hblank h'.clearSlot)

/-- A container is read from its start to its end, with the elements of its cells. -/
theorem reaches_container {r : Whole} {cells : List Cell} {value : Option Value}
    {blank text : List UInt8} (hbegins : BeginsElements c value text) (hne : cells ≠ [])
    (htold : ∀ cell ∈ cells, cell.Told settings)
    (hdepth : ∀ cell ∈ cells, Allows settings (kinds.length + 1 + cell.nesting))
    (hphase : phase.expectsValue = true) (hblank : IsBlank blank)
    (hawaits : Reading.Awaits settings stream phase kinds
      (blank ++ (text ++ (Cell.row cells ++ Reading.mark c :: rest))) r.state.clearSlot r.cursor) :
    r.Reaches settings stream
      ((.opening c, value) :: ((Cell.elements cells).flatten ++ [(.closing c, none)]))
      (completed settings kinds) kinds rest := by
  have hopening : Allows settings (kinds.length + 1) := by
    obtain ⟨cell, hcell⟩ := List.exists_mem_of_ne_nil cells hne
    exact (hdepth cell hcell).mono (Nat.le_add_right _ _)
  exact (reaches_beginning hbegins hphase hblank hopening hawaits).append fun r' h' =>
    reaches_row hbegins.ne_object hne htold hdepth (.inl rfl)
      (Reading.awaits_part h'.clearSlot nofun)

theorem visible_container {cells : List Cell} (htold : ∀ cell ∈ cells, cell.Told settings)
    (value : Option Value) :
    ∀ token ∈ (Token.opening c, value) :: ((Cell.elements cells).flatten ++ [(.closing c, none)]),
      token.1 ≠ .comment ∧ token.1 ≠ .none := by
  simp only [List.forall_mem_cons, List.forall_mem_append, List.mem_flatten]
  refine ⟨⟨nofun, nofun⟩, ?_, ⟨nofun, nofun⟩, nofun⟩
  rintro token ⟨entries, hentries, htoken⟩
  obtain ⟨cell, hcell, rfl⟩ := Cell.mem_elements hentries
  exact (htold cell hcell).visible token htoken

/-- A container is the next element where it stands, and its elements are placed in it. -/
theorem standing_container {cells : List Cell} (htold : ∀ cell ∈ cells, cell.Told settings)
    (value : Option Value) (frames : List Frame) :
    let place := (frames.modifyHead .advance).reverse
    standing frames ((.opening c, value) :: ((Cell.elements cells).flatten ++ [(.closing c, none)])) =
      .of (.opening c, value) place ::
        (Cell.sightings place c cells ++ [.of (.closing c, none) place]) := by
  intro place
  have helements : ∀ entries ∈ Cell.elements cells, IsElement entries := by
    intro entries hentries
    obtain ⟨cell, hcell, rfl⟩ := Cell.mem_elements hentries
    exact (htold cell hcell).isElement
  obtain ⟨hplaced, htail⟩ :=
    standing_elements helements (Frame.advance_fresh c) (frames.modifyHead .advance)
  have hpush : push frames (.opening c, value) = .fresh c :: frames.modifyHead .advance := rfl
  have hclosing : push (((Cell.elements cells).flatten).foldl push
      (.fresh c :: frames.modifyHead .advance)) (.closing c, none) = frames.modifyHead .advance :=
    htail
  rw [standing, standing_append, hpush, hplaced, standing, standing, hclosing, Cell.sightings]
  simp only [Nat.zero_add]
  rfl

end JsonPull
