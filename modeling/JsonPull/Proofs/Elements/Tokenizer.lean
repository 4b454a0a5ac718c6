import JsonPull.Proofs.Elements.Cells
import JsonPull.Proofs.Value.Call

/-! # Elided elements

Wherever a value is due, an array or the arguments of a constructor may have blank places between their
commas. However the source splits its bytes, each blank place is read as an undefined element, but for
the last one, and each document as it is read alone, at the index of its place. -/

namespace JsonPull

open JsonPull.Json JsonPull.Outline

variable {settings : Settings} {stream before rest : List UInt8} {s : State} {pos : Nat} {b : UInt8}

/-- What stands before a value leads to where it is awaited. -/
theorem Approach.awaits (h : Approach settings s before) (hsolid : Reading.Solid b)
    (hstart : Reading.StartsValue b) (hahead : Ahead stream pos (before ++ b :: rest)) :
    ∃ blank, IsBlank blank ∧ Reading.Awaits settings stream (s.nextPhase settings)
      (s.frames.map Frame.kind) (blank ++ b :: rest) s pos := by
  cases h with
  | @blanks blank hphase hblank =>
      have hnext : s.phase = s.nextPhase settings := (if_neg hphase).symm
      exact ⟨before, hblank, Reading.awaits_part ⟨hnext, rfl, hahead⟩ (hnext ▸ hphase)⟩
  | @comma blank blank' hphase hblank hblank' =>
      rw [List.append_assoc, List.cons_append] at hahead
      refine ⟨blank', hblank', Reading.awaits_separated hphase ?_⟩
      refine (Reading.succeeds_separator_comma _ hphase hblank.isSpace hahead).mono ?_
      rintro found s' pos' ⟨hfound, harrives, ha⟩
      exact ⟨hfound, harrives.phase_eq, congrArg _ harrives.frames_eq, ha⟩
  | @another blank hphase htop hmultiple hblank =>
      refine ⟨[], isBlank_nil, Reading.awaits_separated hphase ?_⟩
      refine (Reading.succeeds_separator_another _ hphase htop hmultiple hblank hsolid hstart
        hahead).mono ?_
      rintro found s' pos' ⟨hfound, harrives, ha⟩
      exact ⟨hfound, harrives.phase_eq, congrArg _ harrives.frames_eq, ha⟩

theorem BeginsElements.begins {c : Container} {value : Option Value} {text : List UInt8}
    (h : BeginsElements c value text) :
    ∃ b more, text = b :: more ∧ Reading.Solid b ∧ Reading.StartsValue b := by
  cases h with
  | array => exact ⟨0x5B, _, rfl, ⟨by decide, rfl⟩, nofun, nofun, nofun⟩
  | constructor => exact ⟨0x6E, _, rfl, ⟨by decide, rfl⟩, nofun, nofun, nofun⟩

/-- A document is read alone as the reader tells everywhere. -/
theorem Cell.Holds.told {options : Options} {cell : Cell} (h : cell.Holds options) :
    cell.Told options.settings := by
  cases cell with
  | blank space => exact h
  | document text seen =>
      obtain ⟨hjson, source, pool, heeds, hsteady, rfl, hyields⟩ := h
      exact IsJson.recited hjson
        ((Tokenizer.Sound.yields_iff (Tokenizer.sound_ofSource _ hsteady pool heeds) seen).mp hyields)

theorem Whole.Shows.observe {r r' : Whole} {seen : List Sighting} (h : r.Shows settings stream seen r') :
    (r.observe settings stream (List.replicate seen.length .read)).map
      (fun shown => (shown.1, shown.2.sighting)) = seen.map fun x => (.ok (.found true), x) := by
  induction seen generalizing r with
  | nil => rfl
  | cons x seen ih =>
      obtain ⟨r₁, hcall, hview, hrest⟩ := h
      rw [List.length_cons, List.replicate_succ, Whole.observe, hcall]
      dsimp only
      rw [List.map_cons, ih hrest, hview, List.map_cons]

namespace Tokenizer

variable {t : Tokenizer}

theorem Sound.observe_elements (h : t.Sound stream) (hexpects : t.nextPhase.expectsValue = true)
    {c : Container} {value : Option Value} {text : List UInt8} (hbegins : BeginsElements c value text)
    {cells : List Cell} (hne : cells ≠ []) (htold : ∀ cell ∈ cells, cell.Told t.options.settings)
    (hdepth : ∀ cell ∈ cells, Allows t.options.settings (t.state.frames.length + 1 + cell.nesting))
    (hfaces : t.Faces stream (text ++ (Cell.row cells ++ Reading.mark c :: rest))) :
    let place := (t.state.frames.modifyHead .advance).reverse
    let seen : List Sighting := .of (.opening c, value) place ::
      (Cell.sightings place c cells ++ [.of (.closing c, none) place])
    (t.observe (List.replicate seen.length .read)).map (fun shown => (shown.1, shown.2.sighting)) =
      seen.map fun x => (.ok (.found true), x) := by
  intro place seen
  obtain ⟨before, happroach, hahead⟩ := hfaces
  obtain ⟨b, more, htext, hsolid, hstart⟩ := hbegins.begins
  rw [htext, List.cons_append] at hahead
  obtain ⟨blank, hblank, hawaits⟩ := happroach.clearSlot.awaits hsolid hstart hahead
  rw [← List.cons_append, ← htext] at hawaits
  have hopen : ∀ cell ∈ cells, Allows t.options.settings
      ((t.state.clearSlot.frames.map Frame.kind).length + 1 + cell.nesting) := by
    rw [List.length_map]
    exact hdepth
  obtain ⟨r', hproduces, -⟩ :=
    reaches_container (r := t.whole) hbegins hne htold hopen hexpects hblank hawaits
  have hphase : t.whole.state.phase ≠ .closed := by
    intro hclosed
    have hnext : t.nextPhase = .closed := by
      rw [nextPhase, State.nextPhase, show t.state.phase = .closed from hclosed, if_neg (by decide)]
    rw [hnext] at hexpects
    cases hexpects
  obtain ⟨-, hshows⟩ := hproduces.shows h.cursor_le hphase (visible_container htold value)
  rw [standing_container htold] at hshows
  rw [observe_whole h]
  exact hshows.observe

/-- Wherever a value is due, an array or a constructor may have any number of cells between its marks, each
with blanks or a document in it. However the source splits the bytes and whatever was read before, reads
show its start, where the open containers tell; for each cell, at its index, the tokens that its document
gives alone, or an undefined value if it is blank, but nothing for a last one that is blank; and its end. -/
theorem elided_elements (options : Options) {source : Source} (hsteady : source.Steady) (pool : Pool)
    (heeds : Bool) (calls : List Call) {t : Tokenizer}
    (ht : (ofSource options source pool heeds).afterAll (calls.map .call) = t)
    (hexpects : t.nextPhase.expectsValue = true) {c : Container} {value : Option Value}
    {text rest : List UInt8} (hbegins : BeginsElements c value text) {cells : List Cell}
    (hne : cells ≠ []) (hholds : ∀ cell ∈ cells, cell.Holds options)
    (hdepth : ∀ cell ∈ cells, Allows options.settings (t.state.frames.length + 1 + cell.nesting))
    (hfaces : t.Faces source.bytes (text ++ (Cell.row cells ++ Reading.mark c :: rest))) :
    let place := (t.state.frames.modifyHead .advance).reverse
    let seen : List Sighting := .of (.opening c, value) place ::
      (Cell.sightings place c cells ++ [.of (.closing c, none) place])
    (t.observe (List.replicate seen.length .read)).map (fun shown => (shown.1, shown.2.sighting)) =
      seen.map fun x => (.ok (.found true), x) := by
  have hoptions : t.options = options := ht ▸ options_afterAll _ calls
  have hsound : t.Sound source.bytes := ht ▸ (sound_ofSource options hsteady pool heeds).afterAll calls
  rw [← hoptions] at hholds hdepth
  exact hsound.observe_elements hexpects hbegins hne (fun cell hcell => (hholds cell hcell).told) hdepth
    hfaces

/-- The constructor in `[new A(,[null], )]`, which comes byte by byte: its first cell is blank, and so is its
last one. -/
theorem elided_elements_constructor :
    let options : Options := { initialCapacity := 2, maxDepth := some 3 }
    let source : Source :=
      { script := [.bytes ⟨#[0x5B, 0x6E, 0x65, 0x77, 0x20, 0x41, 0x28, 0x2C, 0x5B, 0x6E, 0x75, 0x6C, 0x6C,
          0x5D, 0x2C, 0x20, 0x29, 0x5D]⟩ 0], limit := some 1 }
    let t := (ofSource options source {} false).afterAll ([Call.read].map .call)
    let cells : List Cell := [.blank [], .document [0x5B, 0x6E, 0x75, 0x6C, 0x6C, 0x5D]
      [⟨.opening .array, none, "", 0⟩, ⟨.scalar .null, none, "[0]", 1⟩, ⟨.closing .array, none, "", 0⟩],
      .blank [0x20]]
    let seen : List Sighting := [⟨.opening .constructor, some (.string "A"), "[0]", 1⟩,
      ⟨.scalar .undefined, none, "[0][0]", 2⟩, ⟨.opening .array, none, "[0][1]", 2⟩,
      ⟨.scalar .null, none, "[0][1][0]", 3⟩, ⟨.closing .array, none, "[0][1]", 2⟩,
      ⟨.closing .constructor, none, "[0]", 1⟩]
    (∀ cell ∈ cells, cell.Holds options) ∧
      (t.observe (List.replicate 6 .read)).map (fun shown => (shown.1, shown.2.sighting)) =
        seen.map fun x => (.ok (.found true), x) := by
  intro options source t cells seen
  have hblank : IsSpace [0x20] := .blank (c := ' ') (by decide) .nil
  have hletter : Text.isAlphanumeric 'A' = true := by decide
  have hbegins : BeginsElements .constructor (some (.string "A")) ([0x6E, 0x65, 0x77] ++ ([0x20] ++
      (Text.toBytes "A" ++ ([] ++ [0x28])))) :=
    .constructor hblank (List.cons_ne_nil _ _) (by decide) (by simpa using hletter) .nil
  have hjson : IsJson [0x5B, 0x6E, 0x75, 0x6C, 0x6C, 0x5D] :=
    .mk isBlank_nil (.array (.lastItem isBlank_nil .null) isBlank_nil) isBlank_nil
  have hholds : ∀ cell ∈ cells, cell.Holds options := by
    refine List.forall_mem_cons.mpr ⟨.nil, List.forall_mem_cons.mpr ⟨⟨hjson, ?_⟩,
      List.forall_mem_cons.mpr ⟨hblank, nofun⟩⟩⟩
    exact ⟨Source.ofBytes ⟨#[0x5B, 0x6E, 0x75, 0x6C, 0x6C, 0x5D]⟩, {}, false, by decide, rfl,
      by decide +kernel⟩
  have hdepth : ∀ cell ∈ cells,
      Allows options.settings (t.state.frames.length + 1 + cell.nesting) := by
    have hall : ∀ cell ∈ cells, t.state.frames.length + 1 + cell.nesting ≤ 3 := by decide +kernel
    rintro cell hcell limit ⟨⟩
    exact hall cell hcell
  have hexpects : t.nextPhase.expectsValue = true := by decide +kernel
  have hphase : t.state.phase ≠ .postValue := by decide +kernel
  have hahead : Ahead source.bytes t.feed.window.cursor
      ([] ++ ([0x6E, 0x65, 0x77] ++ ([0x20] ++ (Text.toBytes "A" ++ ([] ++ [0x28]))) ++
        (Cell.row cells ++ Reading.mark .constructor :: [0x5D]))) := by
    unfold Ahead
    decide +kernel
  have ht : (ofSource options source {} false).afterAll ([Call.read].map .call) = t := rfl
  have hseen : Sighting.of (.opening .constructor, some (.string "A"))
      (t.state.frames.modifyHead .advance).reverse ::
        (Cell.sightings (t.state.frames.modifyHead .advance).reverse .constructor cells ++
          [.of (.closing .constructor, none) (t.state.frames.modifyHead .advance).reverse]) = seen := by
    decide +kernel
  have helided := elided_elements options (by decide : source.Steady) {} false [.read] ht hexpects hbegins
    (List.cons_ne_nil _ _) hholds hdepth ⟨[], .blanks hphase isBlank_nil, hahead⟩
  dsimp only at helided
  rw [hseen] at helided
  exact ⟨hholds, helided⟩

end Tokenizer

end JsonPull
