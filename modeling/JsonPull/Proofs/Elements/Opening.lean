import JsonPull.Proofs.Json.Parts
import JsonPull.Proofs.Names.Character

/-! # Where elements begin

Elements are those of an array or of a constructor. A constructor begins with the word `new`, a name and a
parenthesis, with blanks between them. -/

namespace JsonPull

open JsonPull.Json

variable {settings : Settings} {stream blank space text rest : List UInt8} {s s' : State} {pos : Nat}
  {phase : Phase} {kinds : List Container} {c : Container} {name : String} {value : Option Value}

/-- The start of a container of elements, and its value. -/
inductive BeginsElements : Container → Option Value → List UInt8 → Prop where
  | array : BeginsElements .array none [0x5B]
  | constructor {name : String} {space space' : List UInt8} (hspace : IsSpace space)
      (hne : space ≠ []) (hname : name ≠ "")
      (hchars : ∀ c ∈ name.toList, Text.isAlphanumeric c = true) (hspace' : IsSpace space') :
      BeginsElements .constructor (some (.string name))
        ([0x6E, 0x65, 0x77] ++ (space ++ (Text.toBytes name ++ (space' ++ [0x28]))))

theorem BeginsElements.ne_object (h : BeginsElements c value text) : c ≠ .object := by
  cases h <;> nofun

namespace Reading

/-! ## Names of constructors -/

/-- Where a reader is behind the name of a constructor, up to blanks before its parenthesis. -/
structure NamedUpTo (stream rest : List UInt8) (s s' : State) (pos' : Nat) : Prop where
  same : s.Same s'
  ahead : ∃ space, IsSpace space ∧ Ahead stream pos' (space ++ 0x28 :: rest)

/-- The name of a constructor ends at its parenthesis, or with the first blank before that. -/
theorem succeeds_constructorName {chars : List Char}
    (hchars : ∀ c ∈ chars, Text.isAlphanumeric c = true) (hspace : IsSpace space)
    (h : Ahead stream pos (chars.flatMap Text.encode ++ (space ++ 0x28 :: rest))) :
    constructorName.Succeeds settings stream s pos fun last s' pos' =>
      last = pos + (chars.flatMap Text.encode).length ∧ NamedUpTo stream rest s s' pos' := by
  cases hspace with
  | nil =>
      have hmark : Text.isAlphanumeric '(' = false := by decide
      refine succeeds_chars hchars hmark h fun ha => ?_
      rw [succeeds_bind, succeeds_cursor, if_pos (beq_self_eq_true _), succeeds_pure]
      exact ⟨_, rfl, rfl, .refl s, [], .nil, ha⟩
  | @blank c space hblank hspace =>
      rw [List.append_assoc] at h
      refine succeeds_chars hchars (isAlphanumeric_of_isBlank hblank) h fun ha => ?_
      have hmark : c ≠ '(' := by
        rintro rfl
        exact absurd hblank (by decide)
      rw [succeeds_bind, succeeds_cursor, if_neg (by simpa using hmark)]
      by_cases hreturn : c = '\r'
      · subst hreturn
        rw [if_pos (beq_self_eq_true _), succeeds_bind]
        have ha : Ahead stream _ (0x0D :: (space ++ 0x28 :: rest)) := ha
        refine succeeds_takeReturn ha (fun more s' hmore hs => ?_) fun s' _ hs => ?_
        · obtain ⟨space', hspace', -, hbehind⟩ :=
            hspace.feed (isSolid_cons (by decide) rest).inked hmore
          rw [hmore, hbehind] at ha
          exact (succeeds_pure _).mpr ⟨_, rfl, rfl, hs, space', hspace', ha.tail.tail⟩
        · exact (succeeds_pure _).mpr ⟨_, rfl, rfl, hs, space, hspace, ha.tail⟩
      · rw [if_neg (by simpa using hreturn)]
        by_cases hfeed : c = '\n'
        · subst hfeed
          rw [if_pos (beq_self_eq_true _), succeeds_bind, succeeds_takeFeed, succeeds_pure]
          exact ⟨_, rfl, rfl, same_lines s _, space, hspace, ha.tail⟩
        · rw [if_neg (by simpa using hfeed), if_pos hblank, succeeds_bind, succeeds_advance,
            succeeds_pure]
          exact ⟨_, rfl, rfl, .refl s, space, hspace, ha.skip⟩

/-! ## Starts -/

/-- What begins a constructor, up to its first argument. -/
theorem succeeds_constructorStart {space' : List UInt8} (hspace : IsSpace space) (hne : space ≠ [])
    (hname : name ≠ "") (hchars : ∀ c ∈ name.toList, Text.isAlphanumeric c = true)
    (hspace' : IsSpace space')
    (hdepth : ∀ limit, settings.maxDepth = some limit → s.frames.length < limit)
    (h : Ahead stream pos
      ([0x6E, 0x65, 0x77] ++ (space ++ (Text.toBytes name ++ (space' ++ 0x28 :: rest))))) :
    constructorStart.Succeeds settings stream s pos fun _ s' pos' => Ahead stream pos' rest ∧
      ∃ s₁, s.Same s₁ ∧ s' = s₁.publishOpening .constructor (.owned (.string name)) := by
  have hword : Literal.new.bytes = [0x6E, 0x65, 0x77] := rfl
  have hend : EndsWord s.phase (space ++ (Text.toBytes name ++ (space' ++ 0x28 :: rest))) := by
    cases hspace with
    | nil => exact absurd rfl hne
    | blank hblank hspace =>
        rw [List.append_assoc]
        exact .blank hblank
  have hinked : Inked (Text.toBytes name ++ (space' ++ 0x28 :: rest)) := by
    obtain ⟨c, chars, hlist⟩ :=
      List.exists_cons_of_ne_nil fun hnil => hname (String.toList_eq_nil_iff.mp hnil)
    rw [Text.toBytes, hlist, List.flatMap_cons, List.append_assoc]
    exact inked_nameChar (isNameChar_of_isAlphanumeric (hchars c (by simp [hlist]))) _
  unfold constructorStart
  rw [succeeds_bind, succeeds_requireWord hword (List.cons_ne_nil _ _) hend h, succeeds_bind]
  refine succeeds_skipBlanks_until hspace hinked h.skip fun s₁ pos₁ hs₁ ha₁ => ?_
  rw [succeeds_bind, succeeds_cursor, succeeds_bind]
  refine (succeeds_constructorName hchars hspace' ha₁).mono ?_
  rintro _ s₂ pos₂ ⟨rfl, hs₂, left, hleft, ha₂⟩
  have hslice : (stream.drop pos₁).take (Text.toBytes name).length = Text.toBytes name := ha₁.slice
  rw [succeeds_bind, succeeds_bytesOf, ← Text.toBytes, Nat.add_sub_cancel_left, hslice,
    Text.ofBytes_toBytes, succeeds_bind]
  refine succeeds_skipBlanks_space hleft (isSolid_cons (by decide) rest) ha₂ fun s₃ pos₃ hs₃ ha₃ => ?_
  have hsame : s.Same s₃ := hs₁.trans (hs₂.trans hs₃)
  rw [List.head?_cons, if_pos (beq_self_eq_true _), succeeds_bind, succeeds_advance,
    succeeds_openContainer, hsame.frames_eq]
  exact ⟨hdepth, ha₃.tail, s₃, hsame, rfl⟩

end Reading

namespace Json

variable {r : Whole}

/-- The start of a container of elements is read where a value is due. -/
theorem reaches_beginning (h : BeginsElements c value text) (hphase : phase.expectsValue = true)
    (hblank : IsBlank blank) (hdepth : Allows settings (kinds.length + 1))
    (hawaits : Reading.Awaits settings stream phase kinds (blank ++ (text ++ rest)) r.state.clearSlot
      r.cursor) :
    r.Reaches settings stream [(.opening c, value)] (.opened c) (c :: kinds) rest := by
  cases h with
  | array => exact reaches_opening rfl (by decide) hphase hblank hdepth hawaits
  | @constructor name space space' hspace hne hname hchars hspace' =>
      simp only [List.append_assoc, List.singleton_append] at hawaits
      have hlead : Reading.announced? (Lead.ofByte 0x6E) = some Reading.nullOrConstructor := rfl
      refine Whole.reaches_of_succeeds
        (Reading.succeeds_token_value hphase hblank hlead (by decide) hawaits fun s pos hs => ?_)
      have hbyte : stream[pos + 1]? = some 0x65 := hs.ahead.getElem? 1
      have hopen : ∀ limit, settings.maxDepth = some limit → s.frames.length < limit := by
        rw [← List.length_map Frame.kind, hs.kinds_eq]
        exact hdepth
      rw [Reading.nullOrConstructor, Reading.succeeds_bind, Reading.succeeds_byte?, hbyte]
      refine (Reading.succeeds_constructorStart hspace hne hname hchars hspace' hopen hs.ahead).mono ?_
      rintro _ _ pos' ⟨ha, s₁, hsame, rfl⟩
      exact Reading.stops_publishOpening (hs.same hsame hs.ahead) ha (.owned (.string name))

end Json

end JsonPull
