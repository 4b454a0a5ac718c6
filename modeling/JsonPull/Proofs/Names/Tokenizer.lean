import JsonPull.Proofs.Names.Member
import JsonPull.Proofs.Shift.Tokenizer

/-! # Calls that read a name

A read at a name finds it in each of its spellings. But for the quote and for places, what follows does
not tell the spellings apart. -/

namespace JsonPull

variable {stream before space rest : List UInt8} {name : String}

theorem LeadsToName.clearSlot {settings : Settings} {s : State} (h : LeadsToName settings s before) :
    LeadsToName settings s.clearSlot before := by
  cases h with
  | due hphase hgap => exact .due hphase hgap
  | comma hphase hinside hgap hgap' => exact .comma hphase hinside hgap hgap'

namespace Tokenizer

variable {t t' : Tokenizer}

/-- A read finds the name of a property in a spelling, so many lines further on. -/
structure FindsName (t : Tokenizer) (name : String) (spelling : Spelling) (lines : Nat) : Prop where
  reads : t.ReadsName name
  phase_eq : (t.call .read).2.phase = .property
  frames_eq : (t.call .read).2.state.frames = (t.state.publishName name).frames
  quote_eq : (t.call .read).2.quote? = spelling.mark?.map fun b => Char.ofNat b.toNat
  line_eq : (t.call .read).2.line = t.line + lines

/-- A name is found, and the reader is behind its colon. -/
theorem Sound.finds_name (h : t.Sound stream) (hname : IsName name) (spelling : Spelling)
    (hspace : IsSpace space) (hbefore : LeadsToName t.options.settings t.state before)
    (hahead : Ahead stream t.feed.window.cursor
      (before ++ (spelling.write name ++ (space ++ 0x3A :: rest)))) :
    t.FindsName name spelling (lineBreaks before + lineBreaks space) ∧
      (t.call .read).2.state.slot = .owned (.string name) ∧
        Ahead stream (t.call .read).2.feed.window.cursor rest := by
  have hlands : Call.read.program.Lands t.options.settings stream t.state t.feed.window.cursor
      fun r s' pos' => ∃ u : Except ReadError Unit, (u = .ok () ∧
        Reading.Named t.options.settings stream rest t.state.clearSlot name s' pos' ∧
          s'.quote = spelling.mark?) ∧ r = u.map fun _ => Call.read.done := by
    refine Reading.lands_modify_bind.mpr (Reading.Succeeds.lands ?_)
    refine (Reading.succeeds_token_spelling hname spelling hspace hbefore.clearSlot hahead).mono ?_
    rintro _ s' pos' ⟨rfl, hnamed⟩
    exact ⟨.ok (), ⟨rfl, hnamed⟩, rfl⟩
  obtain ⟨_, ⟨rfl, ⟨hsame, hrest⟩, hquote⟩, hresult, hvalue⟩ :=
    call_of_program (h.call .read).1 (h.call .read).2.view hlands
  rw [show t.options.settings.intern name = name from t.options.intern_eq name] at hsame
  have hslot : (t.call .read).2.state.slot = .owned (.string name) := hsame.slot_eq
  have hshown : (t.call .read).2.value? = some (.string name) := by
    rw [hvalue, hslot]
    rfl
  obtain ⟨consumed, rest', hconsumed, hrest', hline⟩ := h.call_lines hresult
  obtain rfl : rest' = rest := hrest'.symm.trans hrest
  have hall : consumed ++ rest' = (before ++ (spelling.write name ++ (space ++ [0x3A]))) ++ rest' := by
    rw [← show _ = consumed ++ rest' from hconsumed, show _ = _ from hahead]
    simp
  rw [List.append_cancel_right hall, hname.lineBreaks_member] at hline
  refine ⟨⟨⟨hresult, hsame.token_eq, hshown⟩, hsame.phase_eq, hsame.frames_eq, ?_, hline⟩, hslot, hrest⟩
  rw [quote?, hquote]

/-- The spellings of a name agree, however the sources split their bytes and whatever was read before.
Wherever the name of a property is due, a read finds it bare and in quotes of either kind, with any blanks
before the colon. Where the open containers are the same, they are the same behind the name, and so are
the token, its value, the path, the depth and the phase; the line is moved by the line breaks around the
name. From there on, all calls show the same but for quotes and places. -/
theorem spellings_agree (options : Options) {source source' : Source} (hsteady : source.Steady)
    (hsteady' : source'.Steady) (pool pool' : Pool) (heeds heeds' : Bool) (calls calls' : List Call)
    {t t' : Tokenizer} (ht : (ofSource options source pool heeds).afterAll (calls.map .call) = t)
    (ht' : (ofSource options source' pool' heeds').afterAll (calls'.map .call) = t')
    (hframes : t'.state.frames = t.state.frames) {name : String} (hname : IsName name)
    (spelling spelling' : Spelling) {before before' space space' rest : List UInt8}
    (hbefore : LeadsToName options.settings t.state before)
    (hbefore' : LeadsToName options.settings t'.state before') (hspace : IsSpace space)
    (hspace' : IsSpace space')
    (hahead : Ahead source.bytes t.feed.window.cursor
      (before ++ (spelling.write name ++ (space ++ 0x3A :: rest))))
    (hahead' : Ahead source'.bytes t'.feed.window.cursor
      (before' ++ (spelling'.write name ++ (space' ++ 0x3A :: rest)))) :
    t.FindsName name spelling (lineBreaks before + lineBreaks space) ∧
      t'.FindsName name spelling' (lineBreaks before' + lineBreaks space') ∧
      (t'.call .read).2.state.frames = (t.call .read).2.state.frames ∧
      (t'.call .read).2.path = (t.call .read).2.path ∧
      (t'.call .read).2.depth = (t.call .read).2.depth ∧
      ∀ later, (t'.call .read).2.observeRelative later = (t.call .read).2.observeRelative later := by
  have hoptions : t.options = options := ht ▸ options_afterAll _ calls
  have hoptions' : t'.options = options := ht' ▸ options_afterAll _ calls'
  have hsound : t.Sound source.bytes := ht ▸ (sound_ofSource options hsteady pool heeds).afterAll calls
  have hsound' : t'.Sound source'.bytes :=
    ht' ▸ (sound_ofSource options hsteady' pool' heeds').afterAll calls'
  obtain ⟨hfinds, hslot, hrest⟩ :=
    hsound.finds_name hname spelling hspace (hoptions.symm ▸ hbefore) hahead
  obtain ⟨hfinds', hslot', hrest'⟩ :=
    hsound'.finds_name hname spelling' hspace' (hoptions'.symm ▸ hbefore') hahead'
  have hstack : (t'.call .read).2.state.frames = (t.call .read).2.state.frames := by
    rw [hfinds.frames_eq, hfinds'.frames_eq, State.publishName, State.publishName, hframes]
  have hphase : (t'.call .read).2.state.phase = (t.call .read).2.state.phase :=
    hfinds'.phase_eq.trans hfinds.phase_eq.symm
  have htoken : (t'.call .read).2.state.token = (t.call .read).2.state.token :=
    hfinds'.reads.2.1.trans hfinds.reads.2.1.symm
  refine ⟨hfinds, hfinds', hstack, ?_, ?_, fun later => ?_⟩
  · unfold path State.path
    rw [hphase, hstack]
  · unfold depth State.depth
    rw [htoken, hstack]
  · refine (hsound.call .read).2.observeRelative_eq (hsound'.call .read).2 ?_ hrest hrest' ?_ hphase
      htoken hstack hslot hslot' later
    · rw [options_call, options_call, hoptions, hoptions']
    · have hlt := hahead.lt_of_length hrest (by simp; omega)
      have hlt' := hahead'.lt_of_length hrest' (by simp; omega)
      omega

/-- The name `é`, bare in `{é :1}` and behind a comment in quotes in `{/**/'é':1}`. -/
theorem spellings_agree_accent :
    let source : Source :=
      { script := [.bytes ⟨#[0x7B, 0xC3]⟩ 0, .bytes ⟨#[0xA9, 0x0A, 0x3A, 0x31, 0x7D]⟩ 0], limit := some 1 }
    let source' : Source :=
      { script := [.bytes ⟨#[0x7B, 0x2F, 0x2A, 0x2A, 0x2F, 0x27, 0xC3, 0xA9, 0x27, 0x3A, 0x31, 0x7D]⟩ 0] }
    let options : Options := { initialCapacity := 2, surfaceComments := false }
    let t := (ofSource options source {} false).afterAll ([Call.read].map .call)
    let t' := (ofSource options source' {} false).afterAll ([Call.read].map .call)
    t.FindsName "é" .bare 1 ∧ t'.FindsName "é" .single 0 ∧
      ∀ later, (t'.call .read).2.observeRelative later = (t.call .read).2.observeRelative later := by
  intro source source' options t t'
  have hsteady : source.Steady := by decide
  have hsteady' : source'.Steady := by decide
  have hframes : t'.state.frames = t.state.frames := by decide +kernel
  have hchar : ∀ c ∈ "é".toList, Reading.isNameChar c = true := by
    have hletter : Reading.isNameChar 'é' = true := by decide +kernel
    simpa using hletter
  have hfeed : IsSpace [0x0A] := .blank (c := '\n') (by decide) .nil
  have hopen : ¬ ([0x2A, 0x2F] : List UInt8) <:+: [] ++ [0x2A] := by decide
  have hcomment : Gap [0x2F, 0x2A, 0x2A, 0x2F] := .comment (.block hopen) .nil
  have hbefore : LeadsToName options.settings t.state [] :=
    .due (.inl (by decide +kernel)) (.space .nil)
  have hbefore' : LeadsToName options.settings t'.state [0x2F, 0x2A, 0x2A, 0x2F] :=
    .due (.inl (by decide +kernel)) (.gap rfl hcomment)
  have hahead : Ahead source.bytes t.feed.window.cursor
      ([] ++ (Spelling.bare.write "é" ++ ([0x0A] ++ 0x3A :: [0x31, 0x7D]))) := by
    unfold Ahead
    decide +kernel
  have hahead' : Ahead source'.bytes t'.feed.window.cursor
      ([0x2F, 0x2A, 0x2A, 0x2F] ++ (Spelling.single.write "é" ++ ([] ++ 0x3A :: [0x31, 0x7D]))) := by
    unfold Ahead
    decide +kernel
  have ht : (ofSource options source {} false).afterAll ([Call.read].map .call) = t := rfl
  have ht' : (ofSource options source' {} false).afterAll ([Call.read].map .call) = t' := rfl
  have hagree := spellings_agree options hsteady hsteady' {} {} false false [.read] [.read] ht ht'
    hframes ⟨by decide, hchar⟩ .bare .single hbefore hbefore' hfeed .nil hahead hahead'
  exact ⟨hagree.1, hagree.2.1, hagree.2.2.2.2.2⟩

end Tokenizer

end JsonPull
