import JsonPull.Proofs.Comments.Token
import JsonPull.Proofs.Reading.Evolve

/-! # The next call makes the token forgotten

What the next call does depends on neither the token before it nor its value. If it succeeds, it
leaves the state that it would leave behind any other token. -/

namespace JsonPull

/-- A scan agrees with itself. -/
theorem Scan.Agrees.self {α : Type} {related : α → α → Prop} (h : ∀ a, related a a) (scan : Scan α) :
    Agrees related scan scan := by
  induction scan with
  | done a => exact .done (h a)
  | ask q next ih => exact .ask q ih

namespace State

/-- Equal apart from the token and its value, of which the second state has none, and not closed. -/
def Open (s s' : State) : Prop := s.Masked s' ∧ s.phase ≠ .closed

theorem lasting_open : Lasting Open := by
  refine ⟨fun s s' h => lasting_masked.alike s s' h.1, fun s s' lines h => ?_⟩
  exact ⟨lasting_masked.lines s s' lines h.1, h.2⟩

end State

namespace Reading

open State

variable {α β τ : Type} {settings : Settings} {before before' : State → State → Prop}
  {after after' : α → State → State → Prop} {request : Request}

/-- From states that are related by `before`, two runs under the same settings ask the same questions,
end with the same result, and leave states that are related by `after` if they succeed. -/
structure Mirrors (x : Reading α) (settings : Settings) (before : State → State → Prop)
    (after : α → State → State → Prop) : Prop where
  run : ∀ {s s' : State}, before s s' →
    Scan.Agrees (fun r r' => r'.1 = r.1 ∧ ∀ a, r.1 = .ok a → after a r.2 r'.2)
      ((x.run settings).run.run s) ((x.run settings).run.run s')

theorem Sees.mirrors {x : Reading α} (h : x.Sees before after) : x.Mirrors settings before after :=
  ⟨fun hs => h.run (.refl settings) hs⟩

namespace Mirrors

theorem mono {x : Reading α} (h : x.Mirrors settings before after)
    (hbefore : ∀ s s', before' s s' → before s s')
    (hafter : ∀ a s s', after a s s' → after' a s s') : x.Mirrors settings before' after' :=
  ⟨fun hs => (h.run (hbefore _ _ hs)).mono fun _ _ hr =>
    ⟨hr.1, fun a ha => hafter a _ _ (hr.2 a ha)⟩⟩

theorem bind {x : Reading β} {f : β → Reading α} {mid : β → State → State → Prop}
    (hx : x.Mirrors settings before mid) (hf : ∀ b, (f b).Mirrors settings (mid b) after) :
    (x >>= f).Mirrors settings before after := by
  refine ⟨fun hs => ?_⟩
  rw [run_bind, run_bind]
  refine (hx.run hs).bind ?_
  rintro ⟨e | b, s₁⟩ ⟨r', s₁'⟩ ⟨hresult, hmid⟩
  · obtain rfl : r' = .error e := hresult
    exact .done ⟨rfl, nofun⟩
  · obtain rfl : r' = .ok b := hresult
    exact (hf b).run (hmid b rfl)

theorem pure {a : α} (h : ∀ s s', before s s' → after a s s') :
    (Pure.pure a : Reading α).Mirrors settings before after :=
  (Sees.pure h).mirrors

/-- From equal states, equal states are reached. -/
theorem self (x : Reading α) (hbefore : ∀ s s', before s s' → s' = s) :
    x.Mirrors settings before fun _ s s' => s' = s := by
  refine ⟨fun {s s'} hs => ?_⟩
  rw [hbefore s s' hs]
  exact .self (fun _ => ⟨rfl, fun _ _ => rfl⟩) _

theorem read_bind {f : Settings → Reading α} (h : (f settings).Mirrors settings before after) :
    (read >>= f).Mirrors settings before after :=
  ⟨fun hs => h.run hs⟩

theorem get_bind {f : State → Reading α}
    (h : ∀ s s', before s s' → f s' = f s ∧
      (f s).Mirrors settings (fun s₁ s₁' => s₁ = s ∧ s₁' = s') after) :
    (get >>= f).Mirrors settings before after := by
  refine ⟨fun {s s'} hs => ?_⟩
  obtain ⟨heq, hf⟩ := h s s' hs
  have hright : ((get >>= f).run settings).run.run s' = ((f s).run settings).run.run s' := by
    rw [← heq]
    rfl
  rw [hright]
  exact hf.run ⟨rfl, rfl⟩

theorem repeating {turn : τ → Reading (Turn τ α)} (halike : ∀ s s', before s s' → s.Alike s')
    (h : ∀ x, (turn x).Mirrors settings before (Sees.Turned before after)) (x : τ) :
    (Reading.repeating turn x).Mirrors settings before after := by
  have hbudget : (Reading.ask .budget).Mirrors settings before fun _ => before :=
    (Sees.ask .budget).mirrors
  refine hbudget.bind fun n => ?_
  refine repeatAtMost_induction (fun _ y => y.Mirrors settings before after)
    (fun _ _ => (Sees.fail halike).mirrors) ?_ (n + 1) x
  refine fun x next ih => (h x).bind fun r => ?_
  cases r with
  | again y => exact ih y
  | stop a => exact pure fun _ _ hs => hs

end Mirrors

/-! ## Between tokens -/

/-- A reading behind which the states are equal. -/
abbrev Forgets (x : Reading α) (settings : Settings) : Prop :=
  x.Mirrors settings Open fun _ s s' => s' = s

theorem Calm.mirrors {x : Reading α} (hcalm : x.Calm) (hblind : x.Blind) :
    x.Mirrors settings Open fun _ => Open :=
  (hcalm.sees hblind lasting_open).mirrors

theorem mirrors_skipBlanks : skipBlanks.Mirrors settings Open fun _ => Open :=
  straight_skipBlanks.calm.mirrors blind_skipBlanks

theorem mirrors_get_bind {f : State → Reading α} (heq : ∀ s s', Open s s' → f s' = f s)
    (hf : ∀ s, s.phase ≠ .closed → (f s).Mirrors settings Open after) :
    (get >>= f).Mirrors settings Open after := by
  refine .get_bind fun s s' h => ⟨heq s s' h, ?_⟩
  refine (hf s h.2).mono ?_ fun _ _ _ hs => hs
  rintro _ _ ⟨rfl, rfl⟩
  exact h

/-- What publishes a token publishes the same behind any other. -/
theorem Sees.forgets {x : Reading α} (h : x.Sees Masked fun _ => Shown) : x.Forgets settings :=
  (Sees.mirrors h).mono (fun _ _ hs => hs.1) fun _ _ _ hs => hs.1

theorem forgets_fail (kind : ErrorKind) : (fail kind : Reading α).Forgets settings :=
  (sees_fail kind).mirrors.mono (fun _ _ hs => hs.1) fun _ _ _ hs => hs

theorem Forgets.bind {x : Reading β} (h : x.Forgets settings) (f : β → Reading α) :
    (x >>= f).Forgets settings :=
  Mirrors.bind h fun b => .self (f b) fun _ _ hs => hs

theorem forgets_nothing : nothing.Forgets settings := by
  refine (Sees.modify fun s s' h => ?_).mirrors
  rw [h.1]
  rfl

/-! ## Comments -/

theorem blind_comment_false : (comment false).Blind := by
  refine (blind_advance 1).bind fun _ => (blind_byte? 0).bind fun mark => ?_
  split
  · exact blind_fail _
  · split
    · exact blind_unexpected _
    · refine (blind_advance 1).bind fun _ => blind_cursor.bind fun first => ?_
      dsimp only
      split
      · exact blind_lineCommentBody.bind fun _ => blind_pure _
      · exact blind_blockCommentBody.bind fun _ => blind_pure _

theorem mirrors_unexpected (site : CharSite) :
    (unexpected site : Reading α).Mirrors settings Open after :=
  (straight_foundAtCursor.calm.mirrors blind_foundAtCursor).bind fun _ =>
    (Sees.fail lasting_open.alike).mirrors

theorem forgets_publishComment (span : Span) : (do
    let trimmed := trimSpan span (← bytesOf span)
    modify (publishComment (.held (← hold trimmed.first trimmed.last))) :
      Reading Unit).Forgets settings := by
  refine ((straight_bytesOf _).calm.mirrors (blind_bytesOf _)).bind fun bytes => ?_
  refine ((straight_hold _ _).calm.mirrors (blind_hold _ _)).bind fun span => ?_
  refine (Sees.modify fun s s' h => ?_).mirrors
  rw [h.1]
  rfl

/-- A comment that is surfaced is a token of its own. -/
theorem mirrors_comment (surface : Bool) : (comment surface).Mirrors settings Open
    fun _ s s' => if surface then s' = s else Open s s' := by
  cases surface with
  | false => exact straight_comment_false.calm.mirrors blind_comment_false
  | true =>
      refine ((straight_advance 1).calm.mirrors (blind_advance 1)).bind fun _ => ?_
      refine ((Straight.byte? 0).calm.mirrors (blind_byte? 0)).bind fun mark => ?_
      split
      · exact (Sees.fail lasting_open.alike).mirrors
      · split
        · exact mirrors_unexpected _
        · refine ((straight_advance 1).calm.mirrors (blind_advance 1)).bind fun _ => ?_
          refine (straight_cursor.calm.mirrors blind_cursor).bind fun first => ?_
          dsimp only
          split
          · exact (straight_lineCommentBody.calm.mirrors blind_lineCommentBody).bind fun last =>
              forgets_publishComment { first, last }
          · exact (straight_blockCommentBody.calm.mirrors blind_blockCommentBody).bind fun last =>
              forgets_publishComment { first, last }

/-! ## Parts of the grammar -/

variable {last : Bool → State → State → Prop}

theorem mirrors_found {x : Reading Unit} (h : x.Forgets settings)
    (hlast : ∀ s, last true s s) :
    (found x : Reading (Turn τ Bool)).Mirrors settings Open (Sees.Turned Open last) := by
  refine Mirrors.bind h fun _ => .pure ?_
  rintro s _ rfl
  exact hlast _

theorem mirrors_passComment (surface : Bool) (hlast : ∀ s, last true s s) :
    (passComment surface).Mirrors settings Open (Sees.Turned Open last) := by
  refine (mirrors_comment surface).bind fun _ => .pure fun s s' hs => ?_
  cases surface with
  | false => exact hs
  | true =>
      obtain rfl : s' = s := hs
      exact hlast _

theorem mirrors_nothing :
    (do nothing; return .stop false : Reading (Turn Unit Bool)).Mirrors settings Open
      (Sees.Turned Open fun _ s s' => s' = s) :=
  Mirrors.bind forgets_nothing fun _ => .pure fun _ _ hs => hs

theorem forgets_value : value.Forgets settings := by
  refine .repeating lasting_open.alike (fun _ => mirrors_skipBlanks.bind fun b => ?_) ()
  cases b with
  | none => exact mirrors_nothing
  | some b =>
      have hfound : ∀ {x : Reading Unit}, x.Sees Masked (fun _ => Shown) →
          (found x : Reading (Turn Unit Bool)).Mirrors settings Open
            (Sees.Turned Open fun _ s s' => s' = s) :=
        fun h => mirrors_found h.forgets fun _ => rfl
      dsimp only
      cases Lead.ofByte b with
      | quote mark => exact hfound (sees_stringValue mark .plain)
      | boolean truth => exact hfound (sees_booleanValue truth)
      | letterN => exact hfound sees_nullOrConstructor
      | undefined => exact hfound sees_undefinedValue
      | special literal => exact hfound (sees_specialValue literal .plain)
      | minus => exact hfound (sees_negativeValue .plain (sees_numberValue .plain))
      | number => exact hfound (sees_numberValue .plain)
      | slash => exact .read_bind (mirrors_passComment _ fun _ => rfl)
      | opening c => exact hfound ((sees_advance 1).bind fun _ => sees_openContainer c .empty)
      | closing c =>
          cases c with
          | object => exact hfound (sees_unexpected .value)
          | array => exact hfound (sees_closeContainer .array)
          | constructor => exact hfound (sees_closeContainer .constructor)
      | comma => exact hfound (sees_publishScalar .undefined .empty true)
      | other => exact hfound sees_otherValue

theorem forgets_member : member.Forgets settings := by
  refine .repeating lasting_open.alike (fun _ => mirrors_skipBlanks.bind fun b => ?_) ()
  split
  · exact mirrors_nothing
  · exact mirrors_found (sees_closeContainer .object).forgets fun _ => rfl
  · exact .read_bind (mirrors_passComment _ fun _ => rfl)
  · exact mirrors_found sees_property.forgets fun _ => rfl

theorem forgets_epilogue (surface : Bool) : (epilogue surface).Forgets settings := by
  refine .repeating lasting_open.alike (fun _ => mirrors_skipBlanks.bind fun b => ?_) ()
  split
  · exact mirrors_nothing
  · exact mirrors_passComment _ fun _ => rfl
  · exact mirrors_unexpected _

theorem Open.resumeContainer {s s' : State} (h : s.Open s') :
    (s.resumeContainer settings).Open (s'.resumeContainer settings) := by
  obtain ⟨hmasked, -⟩ := h
  rw [hmasked]
  refine ⟨rfl, ?_⟩
  unfold State.resumeContainer
  cases s.innermost? with
  | some c => nofun
  | none => cases hmultiple : settings.multipleValues <;> simp

/-- What stands between two tokens leaves the token before as it is, unless it is a token itself. -/
theorem mirrors_separator (surface : Bool) : (separator surface).Mirrors settings Open
    fun found s s' => if found then s' = s else Open s s' := by
  have hstop : ∀ {f : State → State}, (∀ s s', Open s s' → Open (f s) (f s')) →
      (do modify f; return .stop false : Reading (Turn Unit Bool)).Mirrors settings Open
        (Sees.Turned Open fun found s s' => if found then s' = s else Open s s') :=
    fun hf => (Sees.modify hf).mirrors.bind fun _ => .pure fun _ _ hs => hs
  have hresume : (do update resumeContainer; return .stop false : Reading (Turn Unit Bool)).Mirrors
      settings Open (Sees.Turned Open fun found s s' => if found then s' = s else Open s s') :=
    ⟨fun hs => (hstop fun _ _ => Open.resumeContainer).run hs⟩
  refine .repeating lasting_open.alike (fun _ => mirrors_skipBlanks.bind fun b => ?_) ()
  cases b with
  | none =>
      refine hstop fun s s' h => ?_
      rw [h.1]
      exact ⟨rfl, nofun⟩
  | some b =>
      dsimp only
      split
      · exact mirrors_found (sees_closeContainer _).forgets fun _ => rfl
      · exact mirrors_passComment _ fun _ => rfl
      · exact ((straight_advance 1).calm.mirrors (blind_advance 1)).bind fun _ => hresume
      · refine .read_bind (mirrors_get_bind (fun s s' h => by rw [h.1]) fun s _ => ?_)
        split
        · exact hresume
        · exact mirrors_unexpected _

/-! ## Tokens -/

theorem forgets_part : part.Forgets settings := by
  refine mirrors_get_bind (fun s s' h => by rw [h.1]) fun s hopen => ?_
  cases hphase : s.phase with
  | start => exact forgets_value
  | property => exact forgets_value
  | opened c =>
      cases c with
      | object => exact forgets_member
      | array => exact forgets_value
      | constructor => exact forgets_value
  | within c =>
      cases c with
      | object => exact forgets_member
      | array => exact forgets_value
      | constructor => exact forgets_value
  | finished => exact .read_bind (forgets_epilogue _)
  | closed => exact absurd hphase hopen
  | postValue => exact forgets_fail _

/-- Behind a separator, what is left is a token that was found, or a part. -/
theorem forgets_separated (surface : Bool) {a : α} {x : Reading α} (h : x.Forgets settings) :
    (do if ← separator surface then return a else x : Reading α).Forgets settings := by
  refine (mirrors_separator surface).bind fun found => ?_
  cases found with
  | true => exact .pure fun _ _ hs => hs
  | false => exact h

theorem forgets_token : token.Forgets settings := by
  refine mirrors_get_bind (fun s s' h => by rw [h.1]) fun s _ => ?_
  split
  · exact .read_bind (forgets_separated _ forgets_part)
  · exact forgets_part

/-! ## Values on request -/

theorem forgets_unexpectedConsumed (site : CharSite) :
    (unexpectedConsumed site : Reading α).Forgets settings := by
  refine (straight_foundAtCursor.calm.mirrors blind_foundAtCursor).bind fun r => ?_
  exact ((straight_advance _).calm.mirrors (blind_advance _)).bind fun _ => forgets_fail _

theorem forgets_requireNull : requireNull.Forgets settings := by
  refine ((Straight.byte? 1).calm.mirrors (blind_byte? 1)).bind fun b => ?_
  split
  · exact ((straight_advance 1).calm.mirrors (blind_advance 1)).bind fun _ => forgets_fail _
  · exact ((sees_requireWord _).bind fun _ => sees_publishScalar _ _ _).forgets
  · refine ((straight_charAt? 1).calm.mirrors (blind_charAt? 1)).bind fun r => ?_
    exact ((straight_advance _).calm.mirrors (blind_advance _)).bind fun _ => forgets_fail _

theorem forgets_requestedNumber (request : Request) : (requestedNumber request).Forgets settings := by
  unfold requestedNumber
  split
  · exact forgets_unexpectedConsumed _
  · exact forgets_unexpectedConsumed _
  · exact forgets_unexpectedConsumed _
  · exact (sees_numberValue .plain).forgets.bind _
  · exact (sees_numberValue request).forgets

theorem forgets_requestedBoolean (truth : Bool) (request : Request) :
    (requestedBoolean truth request).Forgets settings := by
  have hword : ∀ kind slot, (do
      if ← separateWord (if truth then .true else .false) then
        update fun settings => State.publishScalar settings kind slot true
      else unexpected .value : Reading Unit).Forgets settings := by
    intro kind slot
    refine ((straight_separateWord _).calm.mirrors (blind_separateWord _)).bind fun found => ?_
    split
    · exact (sees_publishScalar _ _ _).forgets
    · exact mirrors_unexpected _
  cases request with
  | boolean => exact hword .boolean _
  | string => exact hword .string _
  | _ => exact forgets_unexpectedConsumed _

theorem forgets_negativeValue (request : Request) {number : Reading Unit}
    (h : number.Forgets settings) : (negativeValue request number).Forgets settings := by
  refine ((Straight.byte? 1).calm.mirrors (blind_byte? 1)).bind fun b => ?_
  split
  · exact (sees_specialValue _ _).forgets
  · exact h

theorem forgets_endOfArray : endOfArray.Forgets settings := by
  refine mirrors_get_bind (fun s s' h => by rw [h.1]) fun s _ => ?_
  split
  · exact (sees_closeContainer .array).forgets
  · exact ((straight_advance 1).calm.mirrors (blind_advance 1)).bind fun _ => forgets_fail _

theorem mirrors_stop {x : Reading Unit} (h : x.Forgets settings) :
    (Turn.stop <$> x : Reading (Turn Unit Unit)).Mirrors settings Open
      (Sees.Turned Open fun _ s s' => s' = s) := by
  rw [← bind_pure_comp]
  exact Mirrors.bind h fun _ => .pure fun _ _ hs => hs

theorem forgets_requestedValue (request : Request) : (requestedValue request).Forgets settings := by
  refine .repeating lasting_open.alike (fun _ => mirrors_skipBlanks.bind fun b => ?_) ()
  cases b with
  | none => exact mirrors_stop forgets_nothing
  | some b =>
      have hother : (Turn.stop <$> unexpectedConsumed .value : Reading (Turn Unit Unit)).Mirrors
          settings Open (Sees.Turned Open fun _ s s' => s' = s) :=
        mirrors_stop (forgets_unexpectedConsumed _)
      dsimp only
      cases Lead.ofByte b with
      | quote mark => exact mirrors_stop ((sees_stringValue mark request).forgets.bind _)
      | letterN => exact mirrors_stop forgets_requireNull
      | special literal => exact mirrors_stop (sees_specialValue literal request).forgets
      | minus => exact mirrors_stop (forgets_negativeValue _ (forgets_requestedNumber request))
      | number => exact mirrors_stop (forgets_requestedNumber request)
      | boolean truth => exact mirrors_stop (forgets_requestedBoolean truth request)
      | opening c =>
          cases c with
          | array =>
              dsimp only
              split
              · have hopen : (do advance 1; openContainer .array .empty).Forgets settings :=
                  ((sees_advance 1).bind fun _ => sees_openContainer .array .empty).forgets
                have hread := hopen.bind fun _ => byteArray
                simp only [bind_assoc] at hread
                exact mirrors_stop hread
              · exact hother
          | object => exact hother
          | constructor => exact hother
      | slash =>
          exact (straight_comment_false.calm.mirrors blind_comment_false).bind fun _ =>
            .pure fun _ _ hs => hs
      | comma => exact mirrors_stop ((sees_publishScalar .undefined .empty true).forgets.bind _)
      | closing c =>
          cases c with
          | array => exact mirrors_stop forgets_endOfArray
          | object => exact hother
          | constructor => exact hother
      | undefined => exact hother
      | other => exact hother

theorem forgets_requestedPart (request : Request) : (requestedPart request).Forgets settings := by
  refine mirrors_get_bind (fun s s' h => by rw [h.1]) fun s hopen => ?_
  dsimp only
  split
  · exact forgets_requestedValue request
  · split
    · exact (forgets_epilogue false).bind _
    · rename_i hclosed
      exact absurd hclosed hopen
    · exact forgets_fail _

theorem forgets_requested (request : Request) : (requested request).Forgets settings := by
  refine mirrors_get_bind (fun s s' h => by rw [h.1]) fun s _ => ?_
  split
  · exact forgets_separated false (forgets_requestedPart request)
  · exact forgets_requestedPart request

end Reading

end JsonPull
