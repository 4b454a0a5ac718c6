import JsonPull.Proofs.Tokenizer.End

/-! # Draining

A read that finds a token takes something of the stream, except that an elided value leaves its
comma. The next read takes that comma and cannot report it again. So the unread bytes, less such a
comma, grow fewer with every token that is found. -/

namespace JsonPull

open State Reading

/-! ## A comma at the cursor -/

theorem Feed.byte?_held {feed : Feed} {ahead : Nat} {b : UInt8}
    (h : feed.window.byte? ahead = some b) (retain : Retain) :
    feed.byte? ahead retain = (.ok (some b), feed) := by
  have hlt : feed.window.pos + ahead < feed.window.used := by
    by_contra hle
    rw [Window.byte?, if_neg hle] at h
    cases h
  have hmissing : feed.window.pos + ahead + 1 - feed.window.used = 0 := by omega
  rw [Feed.byte?, hmissing, ← h]
  rfl

namespace Tokenizer

variable {stream delivered : List UInt8} {d : Reach stream.length} {t : Tokenizer}
  {retain : Retain} {b : UInt8}

theorem run_byte?_held {ahead : Nat} (h : t.feed.window.byte? ahead = some b) (retain : Retain) :
    t.run (byte? ahead retain) = (.ok (some b), t) := by
  have hbyte := Feed.byte?_held h retain
  rw [run_byte? (congrArg Prod.fst hbyte), hbyte]

theorem run_blankLength?_comma (h : t.feed.window.byte? 0 = some 0x2C) :
    t.run (blankLength? retain) = (.ok none, t) := by
  rw [blankLength?, run_bind, run_byte?_held h]
  rfl

theorem run_skipBlanks_comma (h : t.feed.window.byte? 0 = some 0x2C) :
    t.run skipBlanks = (.ok (some 0x2C), t) := by
  refine run_repeating_stop ?_
  rw [run_bind, run_byte?_held h]
  change t.run (blankLength? .unread >>= _) = _
  rw [run_bind, run_blankLength?_comma h]
  rfl

/-- Where a comma follows the blanks, the window holds it. -/
theorem leads_skipBlanks_comma (t : Tokenizer) :
    t.Leads skipBlanks fun b t' => b = some 0x2C → t'.feed.window.byte? 0 = some 0x2C := by
  refine leads_repeating (fun _ _ => True) (fun _ t₁ _ => ?_) trivial
  have hbyte : t₁.Leads (byte? 0 .unread) fun b t' => b = t'.feed.window.byte? 0 := by
    have hask : t₁.Leads (ask (.byte 0 .unread)) fun answer t' =>
        ∀ b, answer = .ok b → b = t'.feed.window.byte? 0 := by
      rintro _ ⟨⟩ b hb
      exact Feed.byte?_of_ok hb
    refine hask.bind fun answer t₂ h => ?_
    split
    · exact leads_pure (h _ rfl)
    · exact leads_fail _ _
    · exact leads_fail _ _
  refine hbyte.bind fun b t₂ hb => ?_
  split
  · exact leads_pure nofun
  · exact (leads_true _ _).bind fun _ _ _ => leads_pure trivial
  · exact (leads_true _ _).bind fun _ _ _ => leads_pure trivial
  · rename_i b _ _
    by_cases hcomma : b = 0x2C
    · subst hcomma
      intro r hr
      rw [run_bind, run_blankLength?_comma hb.symm] at hr ⊢
      cases hr
      exact fun _ => hb.symm
    · refine (leads_true _ _).bind fun r t₃ _ => ?_
      split
      · exact (leads_true _ _).bind fun _ _ _ => leads_pure trivial
      · exact leads_pure fun h => absurd (Option.some.inj h) hcomma

/-! ## Progress -/

/-- An elided value was found, and its comma is still to be taken. -/
def Pending (t : Tokenizer) : Prop :=
  t.feed.window.byte? 0 = some 0x2C ∧ (t.phase = .postValue ∨ t.phase = .finished)

instance (t : Tokenizer) : Decidable t.Pending :=
  inferInstanceAs (Decidable (_ ∧ _))

/-- The offset of the cursor in the stream. -/
def cursor (t : Tokenizer) : Nat := t.feed.window.cursor

/-- How far the tokens reach that were found: up to the cursor, or over the comma behind it. -/
def extent (t : Tokenizer) : Nat := t.cursor + if t.Pending then 1 else 0

theorem cursor_le_extent (t : Tokenizer) : t.cursor ≤ t.extent := Nat.le_add_right _ _

theorem extent_pending (h : t.Pending) : t.extent = t.cursor + 1 := by
  rw [extent, if_pos h]

theorem extent_of_not (h : ¬t.Pending) : t.extent = t.cursor := by
  rw [extent, if_neg h, Nat.add_zero]

theorem extent_le (hfits : t.feed.Fits stream delivered d) : t.extent ≤ stream.length := by
  have hcursor : d.pos = t.cursor := hfits.cursor
  have hle := d.pos_le.trans d.seen_le
  by_cases h : t.Pending
  · have hheld := h.1
    rw [hfits.follows.holds.byte?] at hheld
    have hlt : t.feed.window.cursor + 0 < delivered.length :=
      (List.getElem?_eq_some_iff.mp hheld).1
    have hlength := hfits.follows.length_le
    rw [extent_pending h]
    exact Nat.succ_le_of_lt (hlt.trans_le hlength)
  · rw [extent_of_not h]
    omega

theorem leads_ensures {α : Type} {x : Reading α} {ok : α → State → Reach stream.length → Prop}
    {err : ReadError → State → Reach stream.length → Prop}
    (h : x.Ensures t.options.settings t.state d ok err) (hfits : t.feed.Fits stream delivered d) :
    t.Leads x fun a t' => ∃ delivered' d', t'.feed.Fits stream delivered' d' ∧ ok a t'.state d' := by
  intro a ha
  obtain ⟨delivered', d', hmoves, hpost⟩ := run_ensures h hfits
  rw [ha] at hpost
  exact ⟨delivered', d', hmoves.fits, hpost⟩

/-- From one tokenizer only blanks and comments were passed to the other. -/
def Passed (t : Tokenizer) (d : Reach stream.length) (t' : Tokenizer) : Prop :=
  ∃ delivered' d', t'.feed.Fits stream delivered' d' ∧ Onward .unread t.state d t'.state d'

/-- Where a turn leads on the way to a value. -/
abbrev ValueTurned (t : Tokenizer) (d : Reach stream.length) : Turn Unit Bool → Tokenizer → Prop :=
  Turned (fun _ => Passed t d) fun b t' => b = true → d.pos < t'.extent

/-- A token other than an elided value takes something. -/
theorem leads_found_passes {t₁ : Tokenizer} {d₁ : Reach stream.length} {x : Reading Unit}
    (hfits : t₁.feed.Fits stream delivered d₁) (hle : d.pos ≤ d₁.pos)
    (h : x.Ensures t₁.options.settings t₁.state d₁
      (fun _ => Passes t₁.options.settings t₁.state d₁) Failed) :
    t₁.Leads (found x) (ValueTurned t d) := by
  refine (leads_ensures h hfits).bind fun _ t' ⟨delivered', d', hfits', hpasses⟩ => ?_
  refine leads_pure fun _ => ?_
  have hlt := hpasses.progress
  rw [hfits'.cursor] at hlt
  exact (hle.trans_lt hlt).trans_le t'.cursor_le_extent

/-- An elided value reaches over its comma, which stays. -/
theorem leads_elided (h : t.feed.window.byte? 0 = some 0x2C) :
    t.Leads (update fun settings => State.publishScalar settings .undefined .empty true)
      fun _ t' => t'.extent = t.cursor + 1 := by
  refine leads_update (extent_pending ⟨h, ?_⟩)
  unfold Tokenizer.phase
  rw [phase_publishScalar]
  split
  · exact .inr rfl
  · exact .inl rfl

theorem leads_value_advances (hfits : t.feed.Fits stream delivered d)
    (hphase : t.state.phase.expectsValue = true) (hs : t.state.slot = .empty) :
    t.Leads value fun b t' => b = true → d.pos < t'.extent := by
  refine leads_repeating (fun _ => Passed t d) ?_ ⟨delivered, d, hfits, .refl ..⟩
  rintro _ t₁ ⟨delivered₁, d₁, hfits₁, ho₁⟩
  have hblanks : t₁.Leads skipBlanks fun b t₂ => (∃ delivered₂ d₂,
      t₂.feed.Fits stream delivered₂ d₂ ∧ Onward .unread t₁.state d₁ t₂.state d₂ ∧
        ∀ x, b = some x → d₂.pos < d₂.seen) ∧
      (b = some 0x2C → t₂.feed.window.byte? 0 = some 0x2C) :=
    (leads_ensures proceeds_skipBlanks.ensures hfits₁).and (leads_skipBlanks_comma t₁)
  refine hblanks.bind fun b t₂ ⟨⟨delivered₂, d₂, hfits₂, ho₂, hb⟩, hcomma⟩ => ?_
  have ho := ho₁.trans ho₂
  have hle := ho.pos_le
  have hempty := ho.slot_empty hs
  have hphase₂ : t₂.state.phase.expectsValue = true := by rw [ho.same.phase_eq, hphase]
  have herr := tolerates_failed hempty d₂
  cases b with
  | none => exact (leads_true _ _).bind fun _ _ _ => leads_pure nofun
  | some b =>
      have hseen := hb b rfl
      dsimp only
      have hpasses : ∀ {x : Reading Unit}, x.Ensures t₂.options.settings t₂.state d₂
          (fun _ => Passes t₂.options.settings t₂.state d₂) Failed →
          t₂.Leads (found x) (ValueTurned t d) := leads_found_passes hfits₂ hle
      have hvalued : ∀ {x : Reading Unit}, x.Ensures t₂.options.settings t₂.state d₂
          (fun _ => Valued t₂.options.settings t₂.state d₂) Failed →
          t₂.Leads (found x) (ValueTurned t d) := fun h =>
        hpasses (h.mono (fun _ _ _ hv => hv.passes hphase₂) fun _ _ _ h => h)
      cases hlead : Lead.ofByte b with
      | quote mark => exact hvalued (ensures_stringValue _ _ hempty hseen)
      | boolean truth => exact hvalued (ensures_booleanValue _ hempty)
      | letterN => exact hpasses (ensures_nullOrConstructor hphase₂ hempty hseen)
      | undefined => exact hvalued (ensures_undefinedValue hempty)
      | special literal => exact hvalued (ensures_specialValue _ _ hempty)
      | minus =>
          refine hvalued (ensures_negativeValue _ hempty fun s' d' ho' => ?_)
          exact ensures_numberValue _ (ho'.slot_empty hempty)
      | number => exact hvalued (ensures_numberValue _ hempty)
      | slash =>
          refine leads_read_bind ?_
          have hcomment : (passComment t₂.options.settings.surfaceComments).Ensures
              t₂.options.settings t₂.state d₂ (Turn.Leaves
                (fun _ s' d' => Onward .unread t.state d s' d') d₂ fun _ _ d' => d.pos < d'.pos)
              Failed :=
            ensures_passComment _ ho (fun _ _ h => h.progress) hs hseen le_rfl
          refine (leads_ensures hcomment hfits₂).mono ?_
          rintro (_ | b) t₃ ⟨delivered₃, d₃, hfits₃, h₃⟩
          · exact ⟨delivered₃, d₃, hfits₃, h₃.1⟩
          · have hlt : d.pos < d₃.pos := h₃
            rw [hfits₃.cursor] at hlt
            exact fun _ => hlt.trans_le t₃.cursor_le_extent
      | opening c =>
          refine hpasses ((proceeds_advance .unread hseen).next herr fun _ s₃ d₃ ho₃ _ hpos => ?_)
          exact ensures_opening _ nofun hphase₂ ho₃ (by omega)
      | closing c =>
          cases c with
          | object => exact hpasses (herr.unexpected _)
          | array => exact hpasses (ensures_closeContainer _ nofun hempty hseen)
          | constructor => exact hpasses (ensures_closeContainer _ nofun hempty hseen)
      | comma =>
          have hheld := hcomma (congrArg some (comma_of_lead hlead))
          refine (leads_elided hheld).bind fun _ t₃ h₃ => leads_pure fun _ => ?_
          rw [h₃]
          exact Nat.lt_succ_of_le (hle.trans hfits₂.cursor.le)
      | other => exact hpasses (ensures_otherValue hphase₂ hempty)

/-! ## Tokens -/

/-- Only a value can be an elided one. -/
theorem token_ne_undefined {settings : Settings} {s s' : State} (h : Step settings s s')
    (hphase : s.phase.expectsValue = false) (hclosed : s.phase ≠ .closed) :
    s'.token ≠ .scalar .undefined := by
  cases h with
  | scalar _ _ hexpects => exact absurd (hexpects.symm.trans hphase) nofun
  | opening _ _ hexpects => exact absurd (hexpects.symm.trans hphase) nofun
  | closed hphase => exact absurd hphase hclosed
  | closing _ _ _ h | name _ _ h | comment _ h | nothing h =>
      rw [h.token_eq]
      nofun

theorem leads_part_advances (hfits : t.feed.Fits stream delivered d)
    (hphase : t.state.phase ≠ .postValue) (hs : t.state.slot = .empty) :
    t.Leads part fun b t' => b = true → d.pos < t'.extent := by
  by_cases hclosed : t.state.phase = .closed
  · refine leads_get_bind ?_
    rw [hclosed]
    exact leads_pure nofun
  cases hexpects : t.state.phase.expectsValue with
  | true =>
      have hvalue : t.run part = t.run value := by
        rw [part, run_get_bind]
        split <;> simp_all [Phase.expectsValue]
      have hleads := leads_value_advances hfits hexpects hs
      unfold Leads at hleads ⊢
      rwa [hvalue]
  | false =>
      refine (leads_ensures (ensures_part hphase hs) hfits).mono ?_
      rintro b t' ⟨delivered', d', hfits', hanswers⟩ hb
      have hlt := (hanswers.progress hb).resolve_right
        (token_ne_undefined hanswers.step hexpects hclosed)
      exact (hlt.trans_eq hfits'.cursor).trans_le t'.cursor_le_extent

/-- Behind the last value, the comma of an elided one cannot be passed. -/
theorem leads_epilogue_comma (surface : Bool) (h : t.feed.window.byte? 0 = some 0x2C) :
    t.Leads (epilogue surface) fun _ _ => False := by
  refine leads_repeating (fun _ t => t.feed.window.byte? 0 = some 0x2C) (fun _ t₁ h₁ => ?_) h
  refine leads_bind_of_run (run_skipBlanks_comma h₁) ?_
  exact (leads_true t₁ foundAtCursor).bind fun _ t₂ _ => leads_fail t₂ _

/-- A comma that is at the cursor already is the separator. -/
theorem run_separator_comma (surface : Bool) (h : t.feed.window.byte? 0 = some 0x2C) :
    (t.run (separator surface)).1 = .ok false ∧
      (t.run (separator surface)).2.cursor = t.cursor + 1 := by
  have hturn : t.run (separator surface) = (.ok false, { t with
      state := t.state.resumeContainer t.options.settings
      feed := { t.feed with window := t.feed.window.advance 1 } }) := by
    refine run_repeating_stop ?_
    rw [run_bind, run_skipBlanks_comma h]
    rfl
  rw [hturn]
  exact ⟨rfl, t.feed.window.cursor_advance 1⟩

theorem leads_token_advances (hfits : t.feed.Fits stream delivered d)
    (hs : t.state.slot = .empty) :
    t.Leads Reading.token fun b t' => b = true → t.extent < t'.extent := by
  have hcursor : d.pos = t.cursor := hfits.cursor
  refine leads_get_bind ?_
  split
  · rename_i hphase
    refine leads_read_bind ?_
    have hseparator : t.Leads (separator t.options.settings.surfaceComments) fun b t₁ =>
        (∃ delivered₁ d₁, t₁.feed.Fits stream delivered₁ d₁ ∧
          Separates t.options.settings t.state d b t₁.state d₁) ∧
        (t.Pending → b = false ∧ t₁.cursor = t.cursor + 1) := by
      refine (leads_ensures (ensures_separator _ hphase hs) hfits).and fun b hb hpending => ?_
      obtain ⟨hfalse, hnext⟩ := run_separator_comma t.options.settings.surfaceComments hpending.1
      exact ⟨Except.ok.inj (hb.symm.trans hfalse), hnext⟩
    refine hseparator.bind fun b t₁ ⟨⟨delivered₁, d₁, hfits₁, hseparates⟩, hpending⟩ => ?_
    have hcursor₁ : d₁.pos = t₁.cursor := hfits₁.cursor
    cases b with
    | true =>
        refine leads_pure fun _ => ?_
        have hlt := (hseparates.found rfl).progress
        rw [extent_of_not fun h => nomatch (hpending h).1]
        have hle := t₁.cursor_le_extent
        omega
    | false =>
        refine (leads_part_advances hfits₁ hseparates.phase_ne (hseparates.slot_empty hs)).mono ?_
        intro b t₂ hpart hb
        refine Nat.lt_of_le_of_lt ?_ (hpart hb)
        by_cases h : t.Pending
        · rw [extent_pending h, ← (hpending h).2, hcursor₁]
        · rw [extent_of_not h, ← hcursor]
          exact (hseparates.passed rfl).1
  · rename_i hphase
    by_cases h : t.Pending
    · have hfinished : t.state.phase = .finished := h.2.resolve_left hphase
      refine leads_get_bind ?_
      rw [hfinished]
      exact (leads_read_bind (leads_epilogue_comma _ h.1)).mono fun _ _ hfalse => hfalse.elim
    · rw [extent_of_not h, ← hcursor]
      exact leads_part_advances hfits hphase hs

/-- Every read that finds a token lets the tokens reach further. -/
theorem extent_read (hfits : t.feed.Fits stream delivered d) (hread : t.read.1 = .ok true) :
    t.extent < t.read.2.extent := by
  have htoken : ({ t with state := t.state.clearSlot } : Tokenizer).Leads Reading.token
      fun b t' => b = true → t.extent < t'.extent :=
    leads_token_advances hfits rfl
  exact htoken true hread rfl

/-! ## Many reads -/

/-- The tokenizer after so many reads. -/
def afterReads (k : Nat) (t : Tokenizer) : Tokenizer :=
  t.afterAll (List.replicate k (.call .read))

/-- After so many reads that find a token, one finds the end or fails. -/
structure Drains (t : Tokenizer) (k : Nat) : Prop where
  found : ∀ i < k, (t.afterReads i).read.1 = .ok true
  last : (t.afterReads k).read.1 = .ok false ∨
    ∃ e, (t.afterReads k).read.1 = .error e ∧ e.kind.isDefect = false

theorem Drains.next {k : Nat} (hread : t.read.1 = .ok true) (h : t.read.2.Drains k) :
    t.Drains (k + 1) := by
  refine ⟨fun i hi => ?_, h.last⟩
  cases i with
  | zero => exact hread
  | succ i => exact h.found i (by omega)

theorem Standing.drains (h : t.Standing stream) :
    ∃ k ≤ stream.length - t.extent, t.Drains k := by
  induction hleft : stream.length - t.extent using Nat.strong_induction_on generalizing t with
  | _ left ih =>
      subst hleft
      cases h with
      | closed hphase hdrained =>
          have hread : t.read.1 = .ok false := by rw [hdrained.read]
          exact ⟨0, Nat.zero_le _, nofun, .inl hread⟩
      | reading delivered d hphase hfits =>
          obtain ⟨delivered', d', hcalled⟩ := called .read hfits
          cases hread : t.read.1 with
          | error e =>
              refine ⟨0, Nat.zero_le _, nofun, .inr ⟨e, hread, hcalled.faultless e ?_⟩⟩
              rw [call, hread]
              rfl
          | ok found =>
              cases found with
              | false => exact ⟨0, Nat.zero_le _, nofun, .inl hread⟩
              | true =>
                  have hlt := extent_read hfits hread
                  have hle : t.read.2.extent ≤ stream.length := extent_le hcalled.moves.fits
                  have hstanding : t.read.2.Standing stream :=
                    Standing.after (.reading delivered d hphase hfits) (.call .read)
                  obtain ⟨k, hk, hdrains⟩ := ih _ (by omega) hstanding rfl
                  exact ⟨k + 1, by omega, hdrains.next hread⟩

/-- However a tokenizer was used, draining it comes to an end: there are no more tokens than unread
bytes before a read finds the end or fails, and no read goes on without consuming input. -/
theorem drains_unread (options : Options) (source : Source) (pool : Pool) (heeds : Bool)
    (ops : List Operation) :
    let t := (ofSource options source pool heeds).afterAll ops
    ∃ k ≤ source.bytes.length - t.feed.window.cursor, t.Drains k := by
  intro t
  obtain ⟨k, hk, hdrains⟩ := (standing_afterAll options source pool heeds ops).drains
  have hle := t.cursor_le_extent
  exact ⟨k, hk.trans (Nat.sub_le_sub_left hle _), hdrains⟩

end Tokenizer

end JsonPull
