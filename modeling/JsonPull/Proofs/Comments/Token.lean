import JsonPull.Proofs.Advance.Scanning
import JsonPull.Proofs.Reading.Straight

/-! # Tokens do not look at the token before

How a token is read does not depend on the token and the value before it, nor on whether comments
are surfaced. What it publishes takes the place of both. -/

namespace JsonPull

/-- Scans that agree end with what each of them always ends with. -/
theorem Scan.Agrees.always {α β : Type} {related : α → β → Prop} {left : α → Prop}
    {right : β → Prop} {scan : Scan α} {scan' : Scan β} (h : Agrees related scan scan')
    (hleft : scan.Always left) (hright : scan'.Always right) :
    Agrees (fun a b => related a b ∧ left a ∧ right b) scan scan' := by
  induction h with
  | done h => exact .done ⟨h, hleft, hright⟩
  | ask q h ih => exact .ask q fun a => ih a (hleft a) (hright a)

namespace State

/-- Equal apart from the token and its value, of which the second state has none. -/
def Masked (s s' : State) : Prop := s' = { s with token := s'.token, slot := .empty }

/-- Equal, and at a token that is no comment. -/
def Shown (s s' : State) : Prop := s' = s ∧ s.token ≠ .comment

/-- States that are alike, and stay related when lines are counted. -/
structure Lasting (related : State → State → Prop) : Prop where
  alike : ∀ s s', related s s' → s.Alike s'
  lines : ∀ s s' lines, related s s' → related { s with lines } { s' with lines }

theorem lasting_masked : Lasting Masked := by
  refine ⟨fun s s' h => ?_, fun s s' lines h => ?_⟩
  · rw [h]
    exact ⟨rfl, rfl, rfl⟩
  · rw [h]
    exact rfl

theorem lasting_shown : Lasting Shown := by
  refine ⟨?_, ?_⟩
  · rintro s _ ⟨rfl, -⟩
    exact ⟨rfl, rfl, rfl⟩
  · rintro s _ lines ⟨rfl, hcomment⟩
    exact ⟨rfl, hcomment⟩

theorem Shown.clearSlot {s s' : State} (h : s.Shown s') : s.clearSlot.Masked s'.clearSlot := by
  rw [h.1]
  exact rfl

theorem Masked.clearSlot {s s' : State} (h : s.Masked s') : s.clearSlot.Masked s'.clearSlot := by
  rw [h]
  exact rfl

end State

namespace Reading

open State

variable {α : Type} {related : State → State → Prop} {after : α → State → State → Prop}

/-- A reading that only counts lines keeps states related. -/
theorem Calm.sees {x : Reading α} (hcalm : x.Calm) (hblind : x.Blind) (h : Lasting related) :
    x.Sees related fun _ => related := by
  refine ⟨fun {settings settings' s s'} hkin hs => ?_⟩
  refine ((hblind.run hkin (h.alike _ _ hs)).always (hcalm.leaves settings s).run
    (hcalm.leaves settings' s').run).mono ?_
  rintro ⟨r, s₁⟩ ⟨r', s₁'⟩ ⟨⟨hresult, halike⟩, hleft, hright⟩
  refine ⟨hresult, ?_⟩
  rintro a rfl
  obtain rfl : r' = .ok a := hresult
  have hlines : s₁'.lines = s₁.lines := (halike a rfl).lines_eq
  have hleft : s.Lined s₁ := hleft
  have hright : s'.Lined s₁' := hright
  have hrelated := h.lines s s' s₁.lines hs
  rw [← hleft] at hrelated
  rwa [hright, hlines]

theorem sees_skipBlanks : skipBlanks.Sees Masked fun _ => Masked :=
  straight_skipBlanks.calm.sees blind_skipBlanks lasting_masked

theorem sees_advance (count : Nat) : (advance count).Sees Masked fun _ => Masked := .ask _

theorem sees_requireWord (literal : Literal) :
    (requireWord literal).Sees Masked fun _ => Masked :=
  (straight_requireWord literal).calm.sees (blind_requireWord literal) lasting_masked

theorem sees_fail (kind : ErrorKind) : (fail kind : Reading α).Sees Masked after :=
  .fail lasting_masked.alike

theorem sees_unexpected (site : CharSite) : (unexpected site : Reading α).Sees Masked after :=
  (straight_foundAtCursor.calm.sees blind_foundAtCursor lasting_masked).bind fun _ => sees_fail _

/-! ## Scalars -/

theorem sees_publishScalar (kind : Scalar) (slot : Slot) (counted : Bool) :
    (update fun settings => publishScalar settings kind slot counted).Sees Masked
      fun _ => Shown := by
  refine .update (fun _ _ hkin => by rw [publishScalar_kin hkin]) fun settings s s' h => ?_
  rw [h]
  refine ⟨rfl, ?_⟩
  cases counted with
  | false => nofun
  | true =>
      cases hframes : s.frames <;> simp [publishScalar, completeValue, countElement, hframes]

theorem sees_failNumber (fault : NumberFault) : (failNumber fault : Reading α).Sees Masked after :=
  (sees_publishScalar _ _ _).bind fun _ => .fail lasting_shown.alike

theorem sees_lexeme : lexeme.Sees Masked fun _ => Masked := by
  refine (straight_lexemeBytes.calm.sees blind_lexemeBytes lasting_masked).bind fun b => ?_
  split
  · exact .pure fun _ _ hs => hs
  · split
    · exact .pure fun _ _ hs => hs
    · refine (straight_blankLength?.calm.sees blind_blankLength? lasting_masked).bind fun r => ?_
      split
      · exact .pure fun _ _ hs => hs
      · exact (straight_foundAtCursor.calm.sees blind_foundAtCursor lasting_masked).bind fun _ =>
          sees_failNumber _

theorem sees_finishValue : finishValue.Sees Masked fun _ => Masked := by
  refine .update (fun _ _ hkin => by rw [completeValue_kin hkin]) fun settings s s' h => ?_
  rw [h]
  cases hframes : s.frames <;> simp [Masked, completeValue, countElement, hframes]

theorem sees_bytesOf (span : Span) : (bytesOf span).Sees Masked fun _ => Masked :=
  (straight_bytesOf span).calm.sees (blind_bytesOf span) lasting_masked

theorem sees_numberValue (request : Request) :
    (numberValue request).Sees Masked fun _ => Shown := by
  refine (Sees.ask .settle).bind fun _ => (Sees.ask .cursor).bind fun first => ?_
  refine sees_lexeme.bind fun _ => sees_finishValue.bind fun _ => ?_
  refine (Sees.ask .cursor).bind fun last => ?_
  have hhold := (straight_hold first last).calm.sees (blind_hold first last) lasting_masked
  refine hhold.bind fun span => ?_
  refine (sees_bytesOf span).bind fun spelling => ?_
  refine .read_bind (fun settings => ?_) fun settings settings' hkin => ?_
  · split
    · exact sees_publishScalar _ _ _
    · exact sees_publishScalar _ _ _
    · exact sees_failNumber _
  · rw [show Lexeme.convert settings' request spelling = Lexeme.convert settings request spelling by
      rw [hkin]; rfl]

theorem sees_specialValue (literal : Literal) (request : Request) :
    (specialValue literal request).Sees Masked fun _ => Shown := by
  refine (sees_requireWord literal).bind fun _ => .read_bind (fun settings => ?_) ?_
  · dsimp only
    split
    · exact sees_publishScalar _ _ _
    · split
      · exact sees_publishScalar _ _ _
      · exact sees_fail _
  · intro settings settings' hkin
    rw [hkin]

theorem sees_negativeValue (request : Request) {number : Reading Unit}
    (h : number.Sees Masked fun _ => Shown) :
    (negativeValue request number).Sees Masked fun _ => Shown := by
  refine ((Straight.byte? 1).calm.sees (blind_byte? 1) lasting_masked).bind fun b => ?_
  split
  · exact sees_specialValue _ _
  · exact h

theorem sees_booleanValue (b : Bool) : (booleanValue b).Sees Masked fun _ => Shown :=
  (sees_requireWord _).bind fun _ => sees_publishScalar _ _ _

theorem sees_undefinedValue : undefinedValue.Sees Masked fun _ => Shown :=
  (sees_requireWord _).bind fun _ => sees_publishScalar _ _ _

theorem sees_bodyText (b : Body) : (bodyText b).Sees Masked fun _ => Masked :=
  (straight_bodyText b).calm.sees (blind_bodyText b) lasting_masked

theorem sees_publishText (dates : DateHandling) (b : Body) :
    (publishText dates b).Sees Masked fun _ => Shown := by
  unfold publishText
  dsimp only
  split
  · exact sees_publishScalar _ _ _
  · have hdate : (dateOf? dates <$> bodyText b).Sees Masked fun _ => Masked :=
      (sees_bodyText b).map _ fun _ _ _ hs => hs
    refine hdate.bind fun date? => ?_
    split
    · exact sees_publishScalar _ _ _
    · exact sees_publishScalar _ _ _

theorem sees_publishBytes (b : Body) : (publishBytes b).Sees Masked fun _ => Shown := by
  refine (sees_bodyText b).bind fun text => ?_
  split
  · exact sees_publishScalar _ _ _
  · exact sees_fail _

theorem sees_stringValue (quote : UInt8) (request : Request) :
    (stringValue quote request).Sees Masked fun _ => Shown := by
  refine ((straight_quoted quote).calm.sees (blind_quoted quote) lasting_masked).bind fun b => ?_
  refine sees_finishValue.bind fun _ => ?_
  have hquote : (modify fun s => { s with quote := some quote } : Reading Unit).Sees Masked
      fun _ => Masked := by
    refine .modify fun s s' h => ?_
    rw [h]
    exact rfl
  refine hquote.bind fun _ => ?_
  split
  · exact sees_publishBytes b
  · refine .read_bind (fun settings => sees_publishText _ b) fun settings settings' hkin => ?_
    rw [hkin]
    rfl

/-! ## Containers and names -/

theorem sees_nothing : nothing.Sees Masked fun _ => Masked := by
  refine .modify fun s s' h => ?_
  rw [h]
  exact rfl

theorem sees_openContainer (container : Container) (slot : Slot) :
    (openContainer container slot).Sees Masked fun _ => Shown := by
  have hpublish : (modify (publishOpening container slot) : Reading Unit).Sees Masked
      fun _ => Shown := by
    refine .modify fun s s' h => ?_
    rw [h]
    refine ⟨?_, nofun⟩
    cases hframes : s.frames <;> simp [publishOpening, countElement, hframes]
  refine hpublish.bind fun _ => .read_bind (fun settings => ?_) fun settings settings' hkin => ?_
  · split
    · refine .get_bind (fun s => ?_) ?_
      · split
        · exact .fail lasting_shown.alike
        · exact .pure fun _ _ hs => hs
      · rintro s _ ⟨rfl, -⟩
        rfl
    · exact .pure fun _ _ hs => hs
  · rw [hkin]

theorem sees_closeContainer (container : Container) :
    (closeContainer container).Sees Masked fun _ => Shown := by
  refine (sees_advance 1).bind fun _ => .get_bind (fun s => ?_) fun s s' h => ?_
  · have hpublish : (modify (publishClosing container) : Reading Unit).Sees Masked
        fun _ => Shown := by
      refine .modify fun s s' h => ?_
      rw [h]
      exact ⟨rfl, nofun⟩
    refine hpublish.bind fun _ => ?_
    split
    · refine .update (fun _ _ hkin => completeValue_kin hkin) fun settings s s' h => ?_
      rw [h.1]
      exact ⟨rfl, h.2⟩
    · exact .fail lasting_shown.alike
  · rw [h]
    rfl

theorem sees_constructorStart : constructorStart.Sees Masked fun _ => Shown := by
  refine (sees_requireWord .new).bind fun _ => sees_skipBlanks.bind fun _ => ?_
  refine (Sees.ask .cursor).bind fun first => ?_
  refine (straight_constructorName.calm.sees blind_constructorName lasting_masked).bind fun last => ?_
  refine (sees_bytesOf _).bind fun name => sees_skipBlanks.bind fun b => ?_
  split
  · exact (sees_advance 1).bind fun _ => sees_openContainer _ _
  · exact sees_unexpected _

theorem sees_nullOrConstructor : nullOrConstructor.Sees Masked fun _ => Shown := by
  refine ((Straight.byte? 1).calm.sees (blind_byte? 1) lasting_masked).bind fun b => ?_
  split
  · exact (sees_advance 1).bind fun _ => sees_fail _
  · exact (sees_requireWord _).bind fun _ => sees_publishScalar _ _ _
  · exact sees_constructorStart
  · exact sees_fail _

theorem sees_otherValue : otherValue.Sees Masked fun _ => Shown := by
  refine ((straight_charAt? 0).calm.sees (blind_charAt? 0) lasting_masked).bind fun r => ?_
  split
  · split
    · exact sees_numberValue _
    · exact sees_unexpected _
  · exact sees_unexpected _

theorem sees_property : property.Sees Masked fun _ => Shown := by
  refine ((Straight.byte? 0).calm.sees (blind_byte? 0) lasting_masked).bind fun b => ?_
  refine .read_bind (fun settings => ?_) fun settings settings' hkin => by rw [hkin]
  refine ((straight_nameText _).calm.sees (blind_nameText _) lasting_masked).bind fun name => ?_
  refine sees_skipBlanks.bind fun b => ?_
  split
  · refine (sees_advance 1).bind fun _ => .modify fun s s' h => ?_
    rw [h]
    exact ⟨rfl, nofun⟩
  · exact sees_unexpected _

end Reading

end JsonPull
