import JsonPull.Proofs.Numbering.Token

/-! # Paths show counted elements

However a tokenizer is used, its path and those of its failures show elements that were counted. Where
a number was given up because of a stray character, the container around it may still show the index
-1, until its next element is read. -/

namespace JsonPull

theorem State.Broken.path_eq {settings : Settings} {s s' : State} {e : ReadError}
    (h : Broken settings s e s') : e.path = s'.path := by
  cases h with
  | kept h hkind hpath => exact hpath
  | mismatched c h hphase hinner hkind hpath => exact hpath

namespace Tokenizer

open State Reading

variable {t : Tokenizer} {stale? : Option (List Frame)}

theorem leaves_program_numbered (c : Call) {settings : Settings} {s : State}
    (hs : s.Numbered stale?) (hbound : s.Bound) :
    c.program.Leaves settings s (fun _ s' => s'.Numbered stale?) (Harmed stale?) := by
  have hclear : (modify clearSlot : Reading Unit).Leaves settings s
      (fun _ s' => s'.Numbered stale? ∧ s'.Bound) (Harmed stale?) :=
    .modify ⟨hs.of_same rfl rfl, hbound.stays ⟨rfl, rfl⟩⟩
  cases c with
  | read =>
      exact hclear.bind fun _ s' h => (leaves_token_tokened h.1 h.2).mono (fun _ _ h => h.1)
        fun _ _ h => h
  | readAs form =>
      exact hclear.bind fun _ s' h => (numbers_requested form.request).leaves stale? settings s' h.1

/-- A call failed at a number with a stray character behind it. -/
def Strays (t : Tokenizer) (c : Call) : Prop :=
  ∃ e, (t.call c).1 = .error e ∧ e.IsStray

theorem after_numbered (hs : t.state.Numbered stale?) (hbound : t.state.Bound) (op : Operation) :
    (t.after op).state.Numbered stale? ∨
      (t.after op).state.Orderly ∧ ∃ c, op = .call c ∧ t.Strays c := by
  cases op with
  | heed | cancel | uncancel => exact .inl hs
  | close =>
      refine .inl ?_
      change t.close.state.Numbered stale?
      unfold Tokenizer.close
      split
      · exact hs
      · exact AllCounted.numbered nofun
  | call c =>
      have hrun := run_leaves (leaves_program_numbered c hs hbound)
      change (t.call c).2.state.Numbered stale? ∨ (t.call c).2.state.Orderly ∧ _
      rw [call_eq]
      cases hr : (t.run c.program).1 with
      | ok a =>
          rw [hr] at hrun
          exact .inl hrun
      | error e =>
          rw [hr] at hrun
          refine hrun.imp_right fun ⟨hstray, horderly⟩ => ⟨horderly, c, rfl, e, ?_, hstray⟩
          rw [call_eq, hr]
          rfl

/-- A failure shows the path that is shown after it. -/
theorem path_of_error {c : Call} {e : ReadError} (he : (t.call c).1 = .error e) :
    e.path = (t.call c).2.path := by
  have hcall := call_evolves c t
  rw [he] at hcall
  exact hcall.path_eq

theorem afterAll_numbered_or (ht : t.state.Numbered none) (hcoherent : t.state.Coherent)
    (ops : List Operation) :
    (t.afterAll ops).state.Orderly ∧ ((∀ f ∈ (t.afterAll ops).state.visible, f.Counted) ∨
      ∃ before c after, ops = before ++ .call c :: after ∧ (t.afterAll before).Strays c ∧
        (t.afterAll ops).state.frames = (t.afterAll (before ++ [.call c])).state.frames) := by
  induction ops using List.reverseRecOn with
  | nil => exact ⟨ht.orderly, ht.shown.imp_right nofun⟩
  | append_singleton ops op ih =>
      obtain ⟨horderly, hshown⟩ := ih
      have hbound := (afterAll_coherent_or hcoherent ops).1
      have hlast : t.afterAll (ops ++ [op]) = (t.afterAll ops).after op := afterAll_append ops [op] t
      -- A call that gives up a number is the one that is looked for.
      have hstray : (∃ c, op = .call c ∧ (t.afterAll ops).Strays c) →
          ∃ before c after, ops ++ [op] = before ++ .call c :: after ∧
            (t.afterAll before).Strays c ∧ (t.afterAll (ops ++ [op])).state.frames =
              (t.afterAll (before ++ [.call c])).state.frames := by
        rintro ⟨c, rfl, hc⟩
        exact ⟨ops, c, [], rfl, hc, rfl⟩
      rcases hshown with hcounted | ⟨before, c, later, rfl, hc, hframes⟩
      · have hnumbered : (t.afterAll ops).state.Numbered none := ⟨horderly, .inl hcounted⟩
        rcases after_numbered hnumbered hbound op with h | ⟨horderly', hc⟩
        · rw [← hlast] at h
          exact ⟨h.orderly, h.shown.imp_right nofun⟩
        · rw [← hlast] at horderly'
          exact ⟨horderly', .inr (hstray hc)⟩
      · have hnumbered : (t.afterAll (before ++ .call c :: later)).state.Numbered
            (some (t.afterAll (before ++ .call c :: later)).state.frames) := ⟨horderly, .inr rfl⟩
        rcases after_numbered hnumbered hbound op with h | ⟨horderly', hc'⟩
        · rw [← hlast] at h
          refine ⟨h.orderly, h.shown.imp_right fun hsame => ?_⟩
          have hsame : (t.afterAll (before ++ .call c :: later)).state.frames =
              (t.afterAll (before ++ .call c :: later ++ [op])).state.frames :=
            Option.some.inj hsame
          exact ⟨before, c, later ++ [op], by simp, hc, hsame.symm.trans hframes⟩
        · rw [← hlast] at horderly'
          exact ⟨horderly', .inr (hstray hc')⟩

/-- However a tokenizer is used, the path shows elements that were counted, unless a call gave up a
number because of a stray character and the containers are still as it left them. Even then it is
the innermost container alone that shows the index -1. A failure shows the path that is shown after
it. -/
theorem uncounted_since_stray (options : Options) (source : Source) (pool : Pool) (heeds : Bool)
    (ops : List Operation) :
    let start := ofSource options source pool heeds
    let t := start.afterAll ops
    t.path = Frame.path t.state.visible.reverse ∧
      ((∀ f ∈ t.state.visible, f.Counted) ∨
        ∃ before c after, ops = before ++ .call c :: after ∧ (start.afterAll before).Strays c ∧
          t.state.frames = (start.afterAll (before ++ [.call c])).state.frames) ∧
      t.state.Orderly ∧ ∀ c e, (t.call c).1 = .error e → e.path = (t.call c).2.path := by
  intro start t
  have hcounted : start.state.AllCounted := by
    intro f hf
    cases hf
  obtain ⟨horderly, hshown⟩ :=
    afterAll_numbered_or hcounted.numbered (coherent_ofSource options source pool heeds) ops
  exact ⟨path_visible t.state, hshown, horderly, fun c e he => path_of_error he⟩

/-- The text `[1q`. The number is given up before it is counted, but the phase is the one behind a
value, and so the failure and the path show the index -1. -/
theorem stray_character_shows_start :
    let source : Source := { script := [.bytes ⟨#[0x5B, 0x31, 0x71]⟩ 0] }
    let t := (ofSource { initialCapacity := 8 } source {} false).afterAll [.call .read]
    t.read.1 = .error ⟨.ofNumberFault (.strayCharacter (.char 'q')), "[-1]", 1, 2⟩ ∧
      t.read.2.path = "[-1]" ∧ t.read.2.state.visible = [.array (-1)] ∧
      t.read.2.phase = .postValue ∧ ¬(Frame.array (-1)).Counted := by
  refine ⟨by decide +kernel, by decide +kernel, by decide +kernel, by decide +kernel, fun h => ?_⟩
  exact absurd (h (-1) rfl) (by decide)

end Tokenizer

end JsonPull
