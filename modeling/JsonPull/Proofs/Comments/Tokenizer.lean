import JsonPull.Proofs.Comments.Token
import JsonPull.Proofs.Tokenizer.Run
import JsonPull.Proofs.Tokenizer.Whole

/-! # Comments can be left out

A tokenizer that surfaces comments stops at them, and goes on with the next call from where one that
does not surface them goes on at once. Apart from comments both show the same, up to the end or to
the first failure. -/

namespace JsonPull.Tokenizer

open State Reading

variable {α β τ : Type} {t f : Tokenizer} {related : State → State → Prop}

/-! ## Two tokenizers -/

/-- Two tokenizers at the same place, of which only the first one surfaces comments. -/
structure Kindred (related : State → State → Prop) (t f : Tokenizer) : Prop where
  kin : t.options.settings.Kin f.options.settings
  surfaced : t.options.surfaceComments = true
  hidden : f.options.surfaceComments = false
  feed_eq : f.feed = t.feed
  states : related t.state f.state

/-- What a reading sees decides its runs on both. -/
theorem Kindred.run {x : Reading α} {after : α → State → State → Prop} (h : Kindred related t f)
    (hx : x.Sees related after) :
    (f.run x).1 = (t.run x).1 ∧
      ∀ a, (t.run x).1 = .ok a → Kindred (after a) (t.run x).2 (f.run x).2 := by
  obtain ⟨⟨hresult, hafter⟩, hfeed⟩ := (hx.run h.kin h.states).runWith Feed.answer t.feed
  rw [← h.feed_eq] at hresult hafter hfeed
  have hfeed' := h.feed_eq
  unfold Tokenizer.run Feed.run
  rw [hfeed'] at hresult hafter hfeed ⊢
  exact ⟨hresult, fun a ha => ⟨h.kin, h.surfaced, h.hidden, hfeed, hafter a ha⟩⟩

/-- How the turns of two readings compare: both stop, both fail, or the first one stops at a comment
that the second one has passed. -/
inductive Paired (x y : Reading (Turn Unit Bool)) (t f : Tokenizer) : Prop where
  | stopped (b : Bool) (hx : (t.run x).1 = .ok (.stop b)) (hy : (f.run y).1 = .ok (.stop b))
      (h : Kindred (if b then Shown else Masked) (t.run x).2 (f.run y).2)
  | failed (e : ReadError) (hx : (t.run x).1 = .error e) (hy : (f.run y).1 = .error e)
  | comment (hx : (t.run x).1 = .ok (.stop true)) (htoken : (t.run x).2.state.token = .comment)
      (hy : (f.run y).1 = .ok (.again ())) (hlined : f.state.Lined (f.run y).2.state)
      (h : Kindred Masked (t.run x).2 (f.run y).2)
  | defect (e : ReadError) (hx : (t.run x).1 = .error e) (he : e.kind.isDefect = true)

namespace Paired

theorem of_sees {x : Reading (Turn Unit Bool)} (h : Kindred Masked t f)
    (hx : x.Sees Masked (Sees.Turned (fun _ _ => False) fun b => if b then Shown else Masked)) :
    Paired x x t f := by
  obtain ⟨hresult, hafter⟩ := h.run hx
  cases hr : (t.run x).1 with
  | error e => exact .failed e hr (hresult.trans hr)
  | ok r =>
      have h₁ := hafter r hr
      cases r with
      | again u => exact h₁.states.elim
      | stop b => exact .stopped b hr (hresult.trans hr) h₁

theorem of_runs {x y x' y' : Reading (Turn Unit Bool)} {t' f' : Tokenizer}
    (hx : t.run x = t'.run x') (hy : f.run y = f'.run y') (hlined : f.state.Lined f'.state)
    (h : Paired x' y' t' f') : Paired x y t f := by
  cases h with
  | stopped b h₁ h₂ h =>
      rw [← hx] at h₁ h
      rw [← hy] at h₂ h
      exact .stopped b h₁ h₂ h
  | failed e h₁ h₂ => exact .failed e (hx ▸ h₁) (hy ▸ h₂)
  | comment h₁ htoken h₂ h₃ h =>
      rw [← hx] at h₁ htoken h
      rw [← hy] at h₂ h₃ h
      exact .comment h₁ htoken h₂ (hlined.trans h₃) h
  | defect e h₁ he => exact .defect e (hx ▸ h₁) he

/-- Both readings begin with the same one, which only counts lines. -/
theorem bind {z : Reading β} {x y : β → Reading (Turn Unit Bool)} (h : Kindred Masked t f)
    (hcalm : z.Calm) (hblind : z.Blind)
    (hnext : ∀ b t f, Kindred Masked t f → Paired (x b) (y b) t f) :
    Paired (z >>= x) (z >>= y) t f := by
  obtain ⟨hresult, hafter⟩ := h.run (hcalm.sees hblind lasting_masked)
  cases hr : (t.run z).1 with
  | error e =>
      refine .failed e ?_ ?_
      · rw [run_bind_error hr]
      · rw [run_bind_error (hresult.trans hr)]
  | ok b =>
      have hr' := hresult.trans hr
      exact .of_runs (run_bind_ok hr x) (run_bind_ok hr' y) (Calm.run hcalm hr')
        (hnext b _ _ (hafter b hr))

theorem of_failing {z : Reading β} {x y : β → Reading (Turn Unit Bool)} (h : Kindred Masked t f)
    (hz : z.Sees Masked fun _ _ _ => False) : Paired (z >>= x) (z >>= y) t f := by
  obtain ⟨hresult, hafter⟩ := h.run hz
  cases hr : (t.run z).1 with
  | error e =>
      refine .failed e ?_ ?_
      · rw [run_bind_error hr]
      · rw [run_bind_error (hresult.trans hr)]
  | ok b => exact (hafter b hr).states.elim

/-- A comment is published behind its end, where nothing is consumed any more. -/
theorem publish (h : Kindred Masked t f) (span : Span) :
    Paired (do
        let trimmed := trimSpan span (← bytesOf span)
        modify (publishComment (.held (← hold trimmed.first trimmed.last)))
        return .stop true)
      (pure (.again ())) t f := by
  have hslice : t.run (bytesOf span) =
      t.run (stillHeld (t.feed.window.slice? span.first span.last)) := rfl
  cases hbytes : t.feed.window.slice? span.first span.last with
  | none =>
      rw [hbytes] at hslice
      have herror : ∃ e : ReadError, (t.run (bytesOf span)).1 = .error e ∧ e.kind.isDefect = true :=
        ⟨_, congrArg (·.1) hslice, rfl⟩
      obtain ⟨e, he, hdefect⟩ := herror
      exact .defect e (by rw [run_bind_error he]) hdefect
  | some bytes =>
      rw [hbytes] at hslice
      have hrun := run_bind_ok (k := fun bytes => do
        let trimmed := trimSpan span bytes
        modify (publishComment (.held (← hold trimmed.first trimmed.last)))
        return (.stop true : Turn Unit Bool)) (congrArg (·.1) hslice)
      rw [hslice] at hrun
      refine .of_runs hrun rfl (.refl _) (.comment rfl rfl rfl (.refl _) ?_)
      exact ⟨h.kin, h.surfaced, h.hidden, h.feed_eq, h.states⟩

/-- A comment that is surfaced takes no more of the stream than one that is not. -/
theorem passComment (h : Kindred Masked t f) :
    Paired (Reading.passComment true) (Reading.passComment false) t f := by
  unfold Reading.passComment Reading.comment
  simp only [bind_assoc]
  refine .bind h (straight_advance 1).calm (blind_advance 1) fun _ t f h => ?_
  refine .bind h (Straight.byte? 0).calm (blind_byte? 0) fun mark t f h => ?_
  cases mark with
  | none => exact .of_failing h (sees_fail _)
  | some b => ?_
  dsimp only
  split
  · exact .of_failing h (sees_unexpected _)
  simp only [bind_assoc]
  refine .bind h (straight_advance 1).calm (blind_advance 1) fun _ t f h => ?_
  refine .bind h straight_cursor.calm blind_cursor fun first t f h => ?_
  split <;> simp only [bind_assoc, if_true, Bool.false_eq_true, if_false, pure_bind]
  · exact .bind h straight_lineCommentBody.calm blind_lineCommentBody fun last t f h => .publish h _
  · exact .bind h straight_blockCommentBody.calm blind_blockCommentBody fun last t f h => .publish h _

end Paired

/-! ## Repetitions -/

/-- How two readings compare: both end alike, or the first one ends at a comment, in the phase
`phase`, and the second one goes on from there as if it began there. -/
inductive Compared (phase : Phase) (x y : Reading Bool) (t f : Tokenizer) : Prop where
  | same (hresult : (f.run y).1 = (t.run x).1) (h : ∀ b, (t.run x).1 = .ok b →
      Kindred (if b then Shown else Masked) (t.run x).2 (f.run y).2)
  | comment (hx : (t.run x).1 = .ok true) (htoken : (t.run x).2.state.token = .comment)
      (f' : Tokenizer) (h : Kindred Masked (t.run x).2 f') (hphase : f'.state.phase = phase)
      (hy : Sane (f.run y).1 → Sane (f'.run y).1 → f.run y = f'.run y)
  | defect (e : ReadError) (hx : (t.run x).1 = .error e) (he : e.kind.isDefect = true)

namespace Compared

theorem of_runs {x y x' y' : Reading Bool} (hx : t.run x = t.run x')
    (hy : ∀ u : Tokenizer, u.state.phase = f.state.phase → u.options.surfaceComments = false →
      u.run y = u.run y') (hhidden : f.options.surfaceComments = false)
    (h : Compared f.state.phase x' y' t f) : Compared f.state.phase x y t f := by
  have hf := hy f rfl hhidden
  cases h with
  | same hresult h =>
      rw [← hx, ← hf] at hresult h
      exact .same hresult h
  | comment hx' htoken f' h hphase hrun =>
      rw [← hx] at hx' htoken h
      rw [← hf, ← hy f' hphase h.hidden] at hrun
      exact .comment hx' htoken f' h hphase hrun
  | defect e hx' he => exact .defect e (hx ▸ hx') he

/-- The first reading takes one turn. The second one takes more if comments come first. -/
theorem repeating {turn turn' : Unit → Reading (Turn Unit Bool)}
    (hturn : Paired (turn ()) (turn' ()) t f) :
    Compared f.state.phase (Reading.repeating turn ()) (Reading.repeating turn' ()) t f := by
  have hstart (turn : Unit → Reading (Turn Unit Bool)) (u : Tokenizer) :
      u.run (Reading.repeating turn ()) = u.run (repeatAtMost turn (u.feed.budget + 1) ()) := rfl
  have hx := hstart turn t
  have hy := hstart turn' f
  unfold repeatAtMost at hx hy
  cases hturn with
  | stopped b h₁ h₂ h =>
      rw [run_bind_ok h₁] at hx
      rw [run_bind_ok h₂] at hy
      refine .same ?_ ?_ <;> rw [hx, hy]
      · rfl
      · rintro _ ⟨⟩
        exact h
  | failed e h₁ h₂ =>
      rw [run_bind_error h₁] at hx
      rw [run_bind_error h₂] at hy
      refine .same ?_ ?_ <;> rw [hx, hy]
      intro b hb
      cases hb
  | comment h₁ htoken h₂ hlined h =>
      rw [run_bind_ok h₁] at hx
      rw [run_bind_ok h₂] at hy
      refine .comment (by rw [hx]; rfl) (by rw [hx]; exact htoken) (f.run (turn' ())).2
        (by rw [hx]; exact h) hlined.phase_eq fun hsane hsane' => ?_
      rw [hy] at hsane ⊢
      exact run_repeatAtMost hsane hsane'
  | defect e h₁ he =>
      rw [run_bind_error h₁] at hx
      exact .defect e (by rw [hx]) he

end Compared

/-! ## Parts of the grammar -/

theorem Paired.found {token : Reading Unit} (h : Kindred Masked t f)
    (htoken : token.Sees Masked fun _ => Shown) :
    Paired (Reading.found token) (Reading.found token) t f :=
  .of_sees h (htoken.bind fun _ => .pure fun _ _ hs => hs)

/-- The settings tell whether a comment is surfaced. -/
theorem Paired.passComment_read (h : Kindred Masked t f) :
    Paired (do Reading.passComment (← MonadReader.read).surfaceComments)
      (do Reading.passComment (← MonadReader.read).surfaceComments) t f := by
  have hx := run_read_bind (fun settings => Reading.passComment settings.surfaceComments) t
  have hy := run_read_bind (fun settings => Reading.passComment settings.surfaceComments) f
  rw [show t.options.settings.surfaceComments = true from h.surfaced] at hx
  rw [show f.options.settings.surfaceComments = false from h.hidden] at hy
  exact .of_runs hx hy (.refl _) (.passComment h)

theorem compared_value (h : Kindred Masked t f) :
    Compared f.state.phase value value t f := by
  unfold Reading.value
  refine .repeating (.bind h straight_skipBlanks.calm blind_skipBlanks fun b t f h => ?_)
  cases b with
  | none => exact .of_sees h (sees_nothing.bind fun _ => .pure fun _ _ hs => hs)
  | some b =>
      dsimp only
      cases Lead.ofByte b with
      | quote mark => exact .found h (sees_stringValue mark .plain)
      | boolean truth => exact .found h (sees_booleanValue truth)
      | letterN => exact .found h sees_nullOrConstructor
      | undefined => exact .found h sees_undefinedValue
      | special literal => exact .found h (sees_specialValue literal .plain)
      | minus => exact .found h (sees_negativeValue .plain (sees_numberValue .plain))
      | number => exact .found h (sees_numberValue .plain)
      | slash => exact .passComment_read h
      | opening c => exact .found h ((sees_advance 1).bind fun _ => sees_openContainer c .empty)
      | closing c =>
          cases c with
          | object => exact .found h (sees_unexpected .value)
          | array => exact .found h (sees_closeContainer .array)
          | constructor => exact .found h (sees_closeContainer .constructor)
      | comma => exact .found h (sees_publishScalar .undefined .empty true)
      | other => exact .found h sees_otherValue

theorem compared_member (h : Kindred Masked t f) :
    Compared f.state.phase member member t f := by
  unfold Reading.member
  refine .repeating (.bind h straight_skipBlanks.calm blind_skipBlanks fun b t f h => ?_)
  split
  · exact .of_sees h (sees_nothing.bind fun _ => .pure fun _ _ hs => hs)
  · exact .found h (sees_closeContainer _)
  · exact .passComment_read h
  · exact .found h sees_property

theorem compared_epilogue (h : Kindred Masked t f) :
    Compared f.state.phase (epilogue true) (epilogue false) t f := by
  unfold Reading.epilogue
  refine .repeating (.bind h straight_skipBlanks.calm blind_skipBlanks fun b t f h => ?_)
  split
  · exact .of_sees h (sees_nothing.bind fun _ => .pure fun _ _ hs => hs)
  · exact .passComment h
  · exact .of_sees h (sees_unexpected _)

theorem sees_resumed : (update resumeContainer).Sees Masked fun _ => Masked := by
  refine .update (fun _ _ hkin => resumeContainer_kin hkin) fun settings s s' h => ?_
  rw [h]
  exact rfl

theorem compared_separator (h : Kindred Masked t f) :
    Compared f.state.phase (separator true) (separator false) t f := by
  unfold Reading.separator
  refine .repeating (.bind h straight_skipBlanks.calm blind_skipBlanks fun b t f h => ?_)
  have hended : (modify fun s => { s with phase := .finished } : Reading Unit).Sees Masked
      fun _ => Masked := by
    refine .modify fun s s' h => ?_
    rw [h]
    exact rfl
  cases b with
  | none => exact .of_sees h (hended.bind fun _ => .pure fun _ _ hs => hs)
  | some b => ?_
  dsimp only
  split
  · exact .found h (sees_closeContainer _)
  · exact .passComment h
  · exact .of_sees h ((sees_advance 1).bind fun _ => sees_resumed.bind fun _ =>
      .pure fun _ _ hs => hs)
  · refine .of_sees h (.read_bind (fun settings => .get_bind (fun s => ?_) ?_) ?_)
    · split
      · exact sees_resumed.bind fun _ => .pure fun _ _ hs => hs
      · exact sees_unexpected _
    · intro s s' hs
      rw [hs]
    · intro settings settings' hkin
      rw [hkin]

theorem run_part_value (h : t.state.phase.expectsValue = true) : t.run part = t.run value := by
  unfold part
  rw [run_get_bind]
  cases hp : t.state.phase with
  | start | property => rfl
  | opened c | within c =>
      cases c with
      | object => simp [hp, Phase.expectsValue] at h
      | array | constructor => rfl
  | postValue | finished | closed => simp [hp, Phase.expectsValue] at h

theorem run_part_member (h : t.state.inObject) : t.run part = t.run member := by
  unfold part
  rw [run_get_bind]
  rcases h with h | h <;> rw [h]

theorem run_part_epilogue (h : t.state.phase = .finished) :
    t.run part = t.run (epilogue t.options.surfaceComments) := by
  unfold part
  rw [run_get_bind, h]
  exact run_read_bind (fun settings => epilogue settings.surfaceComments) t

theorem run_part_postValue (h : t.state.phase = .postValue) :
    ∃ e : ReadError, (t.run part).1 = .error e ∧ e.kind.isDefect = true := by
  unfold part
  rw [run_get_bind, h]
  exact ⟨_, rfl, rfl⟩

theorem compared_part (h : Kindred Masked t f) : Compared f.state.phase part part t f := by
  have hphase : f.state.phase = t.state.phase := by rw [h.states]
  by_cases hvalue : t.state.phase.expectsValue = true
  · refine .of_runs (run_part_value hvalue) (fun u hu _ => run_part_value ?_) h.hidden
      (compared_value h)
    rwa [hu, hphase]
  by_cases hobject : t.state.inObject
  · refine .of_runs (run_part_member hobject) (fun u hu _ => run_part_member ?_) h.hidden
      (compared_member h)
    unfold State.inObject
    rwa [hu, hphase]
  by_cases hfinished : t.state.phase = .finished
  · have hsurfaced : t.run part = t.run (epilogue true) := by
      rw [run_part_epilogue hfinished, h.surfaced]
    refine .of_runs hsurfaced (fun u hu hhidden => ?_) h.hidden (compared_epilogue h)
    rw [run_part_epilogue (hu.trans (hphase.trans hfinished)), hhidden]
  cases hp : t.state.phase with
  | postValue =>
      obtain ⟨e, he, hdefect⟩ := run_part_postValue hp
      exact .defect e he hdefect
  | closed =>
      have hrun (u : Tokenizer) (hu : u.state.phase = .closed) : u.run part = (.ok false, u) := by
        unfold part
        rw [run_get_bind, hu]
        rfl
      have hx := hrun t hp
      have hy := hrun f (hphase.trans hp)
      refine .same ?_ ?_ <;> rw [hx, hy]
      rintro _ ⟨⟩
      exact h
  | start | property | opened c | within c | finished =>
      simp_all [Phase.expectsValue, State.inObject]

theorem run_token (h : t.state.phase ≠ .postValue) : t.run Reading.token = t.run part := by
  unfold Reading.token
  rw [run_get_bind, if_neg h]

theorem run_token_postValue (h : t.state.phase = .postValue) :
    t.run Reading.token = t.run (do
      if ← separator t.options.surfaceComments then return true else part) := by
  unfold Reading.token
  rw [run_get_bind, if_pos h]
  exact run_read_bind (fun settings => do
    if ← separator settings.surfaceComments then return true else part) t

/-- If a separator ends with no token, the part behind it is compared, where a comment may come as
well. From there on no separator is due. -/
theorem Compared.andThen {x y z rest : Reading Bool} (h : Compared f.state.phase x y t f)
    (hx : t.run z = t.run (do if ← x then return true else rest))
    (hy : ∀ u : Tokenizer, u.state.phase = f.state.phase → u.options.surfaceComments = false →
      u.run z = u.run (do if ← y then return true else rest))
    (hrest : ∀ u : Tokenizer, u.state.phase ≠ f.state.phase → u.run z = u.run rest)
    (hdue : ∀ u : Tokenizer, u.state.phase = f.state.phase → ¬ Sane (u.run rest).1)
    (hhidden : f.options.surfaceComments = false)
    (hnext : ∀ t f, Kindred Masked t f → Compared f.state.phase rest rest t f) :
    ∃ phase, Compared phase z z t f := by
  have hf := hy f rfl hhidden
  cases h with
  | same hresult hafter =>
      cases hr : (t.run x).1 with
      | error e =>
          rw [run_bind_error hr] at hx
          rw [run_bind_error (hresult.trans hr)] at hf
          refine ⟨f.state.phase, .same ?_ ?_⟩ <;> rw [hx, hf]
          nofun
      | ok b =>
          have h₁ := hafter b hr
          rw [run_bind_ok hr] at hx
          rw [run_bind_ok (hresult.trans hr)] at hf
          cases b with
          | true =>
              refine ⟨f.state.phase, .same ?_ ?_⟩ <;> rw [hx, hf]
              · rfl
              · rintro _ ⟨⟩
                exact h₁
          | false =>
              refine ⟨(f.run y).2.state.phase, ?_⟩
              simp only [Bool.false_eq_true, if_false] at hx hf h₁
              cases hnext _ _ h₁ with
              | same hresult h =>
                  rw [← hx, ← hf] at hresult h
                  exact .same hresult h
              | comment hx₁ htoken f' h hphase hrun =>
                  rw [← hx] at hx₁ htoken h
                  refine .comment hx₁ htoken f' h hphase fun hsane hsane' => ?_
                  rw [hf] at hsane ⊢
                  have hne : f'.state.phase ≠ f.state.phase := by
                    rw [hphase]
                    exact fun heq => hdue _ heq hsane
                  rw [hrest f' hne] at hsane' ⊢
                  exact hrun hsane hsane'
              | defect e hx₁ he =>
                  rw [← hx] at hx₁
                  exact .defect e hx₁ he
  | comment hx₁ htoken f' h₁ hphase hrun =>
      rw [run_bind_ok hx₁] at hx
      refine ⟨f.state.phase, .comment (by rw [hx]; rfl) (by rw [hx]; exact htoken) f'
        (by rw [hx]; exact h₁) hphase fun hsane hsane' => ?_⟩
      have hf' := hy f' hphase h₁.hidden
      rw [hf] at hsane ⊢
      rw [hf'] at hsane' ⊢
      have heq := hrun hsane.of_bind hsane'.of_bind
      rw [run_bind, run_bind, heq]
  | defect e hx₁ he =>
      rw [run_bind_error hx₁] at hx
      exact ⟨f.state.phase, .defect e (by rw [hx]) he⟩

theorem compared_token (h : Kindred Masked t f) :
    ∃ phase, Compared phase Reading.token Reading.token t f := by
  have hphase : f.state.phase = t.state.phase := by rw [h.states]
  by_cases hp : t.state.phase = .postValue
  · have hp' : f.state.phase = .postValue := hphase.trans hp
    refine (compared_separator h).andThen ?_ (fun u hu hhidden => ?_) (fun u hu => ?_) (fun u hu => ?_)
      h.hidden fun _ _ => compared_part
    · rw [run_token_postValue hp, h.surfaced]
    · rw [run_token_postValue (hu.trans hp'), hhidden]
    · exact run_token (hp' ▸ hu)
    · obtain ⟨e, he, hdefect⟩ := run_part_postValue (hu.trans hp')
      exact fun hsane => absurd (hsane e he) (by simp [hdefect])
  · exact ⟨_, .of_runs (run_token hp) (fun u hu _ => run_token (by rwa [hu, hphase])) h.hidden
      (compared_part h)⟩

/-! ## Reads -/

variable {stream delivered : List UInt8} {d : Reach stream.length}

/-- Two tokenizers of which the next reads are to be compared. Reads forget the value before. -/
def Abreast (t f : Tokenizer) : Prop :=
  Kindred Masked { t with state := t.state.clearSlot } { f with state := f.state.clearSlot }

theorem Kindred.abreast (h : Kindred Masked t f) : Abreast t f :=
  ⟨h.kin, h.surfaced, h.hidden, h.feed_eq, h.states.clearSlot⟩

theorem Kindred.abreast_shown (h : Kindred Shown t f) : Abreast t f :=
  ⟨h.kin, h.surfaced, h.hidden, h.feed_eq, h.states.clearSlot⟩

theorem Kindred.view_eq (h : Kindred Shown t f) : f.view = t.view := by
  obtain ⟨options, state, feed⟩ := t
  obtain ⟨options', state', feed'⟩ := f
  obtain rfl : state' = state := h.states.1
  obtain rfl : feed' = feed := h.feed_eq
  rfl

theorem read_eq_run (t : Tokenizer) :
    t.read = ({ t with state := t.state.clearSlot } : Tokenizer).run Reading.token := rfl

/-- A read that finds a token consumes something, unless the token is an elided value. -/
theorem read_moves (hfits : t.feed.Fits stream delivered d) :
    ∃ delivered' d', t.read.2.feed.Fits stream delivered' d' ∧ Sane t.read.1 ∧
      (t.read.1 = .ok true → t.read.2.state.token = .comment → d.pos < d'.pos) := by
  have hnext : next.Ensures t.options.settings t.state d
      (Results t.options.settings t.state.clearSlot d) State.Failed := by
    unfold next
    rw [Reading.ensures_modify_bind]
    exact Reading.ensures_token rfl
  obtain ⟨delivered', d', hmoves, hpost⟩ := run_ensures hnext hfits
  rw [← read_eq] at hmoves hpost
  refine ⟨delivered', d', hmoves.fits, ?_, ?_⟩
  · intro e he
    rw [he] at hpost
    exact hpost.kind
  · intro hr htoken
    rw [hr] at hpost
    exact (hpost.progress rfl).resolve_right (by simp [htoken])

/-- A read finds the same on both, or the one that surfaces comments stops at one. The other goes on
from there. -/
theorem read_compared (h : Abreast t f) (hfits : t.feed.Fits stream delivered d) :
    (f.read.1 = t.read.1 ∧ (t.read.1 = .ok true → Kindred Shown t.read.2 f.read.2)) ∨
      (t.read.1 = .ok true ∧ t.read.2.state.token = .comment ∧
        ∃ f', Abreast t.read.2 f' ∧ f.read = f'.read) := by
  obtain ⟨delivered₁, d₁, hfits₁, hsane, -⟩ := read_moves hfits
  have hfeed : f.feed = t.feed := h.feed_eq
  obtain ⟨-, -, -, hsane', -⟩ := read_moves (hfeed ▸ hfits : f.feed.Fits stream delivered d)
  obtain ⟨phase, hcompared⟩ := compared_token h
  rw [read_eq_run] at hsane hfits₁ hsane'
  rw [read_eq_run t, read_eq_run f]
  cases hcompared with
  | same hresult hafter => exact .inl ⟨hresult, hafter true⟩
  | comment hx htoken f' h' hphase hy =>
      refine .inr ⟨hx, htoken, f', h'.abreast, ?_⟩
      have hclear : ({ f' with state := f'.state.clearSlot } : Tokenizer) = f' := by
        have hslot : f'.state.slot = .empty := by rw [h'.states]
        obtain ⟨options, state, feed⟩ := f'
        obtain ⟨lines, phase, token, slot, quote, frames⟩ := state
        obtain rfl : slot = .empty := hslot
        rfl
      have hfits' : f'.feed.Fits stream delivered₁ d₁ := h'.feed_eq ▸ hfits₁
      obtain ⟨-, -, -, hsane₁, -⟩ := read_moves hfits'
      rw [read_eq_run, hclear] at hsane₁ ⊢
      exact hy hsane' hsane₁
  | defect e hx he => exact absurd (hsane e hx) (by simp [he])

/-! ## Runs of reads -/

/-- What at most so many reads show: the tokens up to the first read that fails or finds nothing,
and the outcome of that one, if it is among them. -/
def reads : Nat → Tokenizer → List View × Option (Except ReadError Bool)
  | 0, _ => ([], none)
  | n + 1, t =>
    match t.read with
    | (.ok true, t) =>
      let (views, last) := reads n t
      (t.view :: views, last)
    | (outcome, _) => ([], some outcome)

/-- Without the comments. -/
def withoutComments (shown : List View × Option (Except ReadError Bool)) :
    List View × Option (Except ReadError Bool) :=
  (shown.1.filter (·.token != .comment), shown.2)

theorem reads_found (h : t.read.1 = .ok true) (n : Nat) :
    reads (n + 1) t = (t.read.2.view :: (reads n t.read.2).1, (reads n t.read.2).2) := by
  rw [reads]
  generalize t.read = outcome at h ⊢
  obtain ⟨r, t'⟩ := outcome
  obtain rfl : r = .ok true := h
  rfl

theorem reads_ended (h : t.read.1 ≠ .ok true) (n : Nat) : reads (n + 1) t = ([], some t.read.1) := by
  rw [reads]
  generalize t.read = outcome at h ⊢
  obtain ⟨e | b, t'⟩ := outcome
  · rfl
  · cases b with
    | true => exact absurd rfl h
    | false => rfl

theorem withoutComments_reads_comment (hr : t.read.1 = .ok true) (htoken : t.read.2.state.token = .comment)
    (n : Nat) : withoutComments (reads (n + 1) t) = withoutComments (reads n t.read.2) := by
  have hview : t.read.2.view.token = .comment := htoken
  rw [reads_found hr]
  simp [withoutComments, hview]

theorem withoutComments_reads_found (hr : t.read.1 = .ok true) (htoken : t.read.2.state.token ≠ .comment)
    (n : Nat) : withoutComments (reads (n + 1) t) =
      (t.read.2.view :: (withoutComments (reads n t.read.2)).1, (withoutComments (reads n t.read.2)).2) := by
  have hview : t.read.2.view.token ≠ .comment := htoken
  rw [reads_found hr]
  simp [withoutComments, hview]

theorem reads_congr {f' : Tokenizer} (h : f.read = f'.read) (n : Nat) : reads n f = reads n f' := by
  cases n with
  | zero => rfl
  | succ n => rw [reads, reads, h]

/-- One read of both that finds the same, and what follows it. -/
theorem reads_same {n m : Nat} (hresult : f.read.1 = t.read.1)
    (h : t.read.1 = .ok true → Kindred Shown t.read.2 f.read.2)
    (hrest : t.read.1 = .ok true → reads m f.read.2 = withoutComments (reads n t.read.2)) :
    reads (m + 1) f = withoutComments (reads (n + 1) t) := by
  by_cases hr : t.read.1 = .ok true
  · have hk := h hr
    rw [reads_found (hresult.trans hr), withoutComments_reads_found hr hk.states.2, hk.view_eq, hrest hr]
  · rw [reads_ended hr, reads_ended (hresult ▸ hr), hresult]
    rfl

theorem exists_reads_hidden (n : Nat) (h : Abreast t f) (hfits : t.feed.Fits stream delivered d) :
    ∃ m, reads m f = withoutComments (reads n t) := by
  induction n generalizing t f delivered d with
  | zero => exact ⟨0, rfl⟩
  | succ n ih =>
      obtain ⟨delivered', d', hfits', -, -⟩ := read_moves hfits
      rcases read_compared h hfits with ⟨hresult, hafter⟩ | ⟨hr, htoken, f', h', hread⟩
      · by_cases hr : t.read.1 = .ok true
        · obtain ⟨m, hm⟩ := ih (hafter hr).abreast_shown hfits'
          exact ⟨m + 1, reads_same hresult hafter fun _ => hm⟩
        · exact ⟨1, reads_same hresult hafter fun h => absurd h hr⟩
      · obtain ⟨m, hm⟩ := ih h' hfits'
        exact ⟨m, by rw [reads_congr hread, hm, withoutComments_reads_comment hr htoken]⟩

/-- Each comment takes something of the stream, so only so many come before another token. -/
theorem exists_reads_surfaced (m : Nat) (h : Abreast t f) (hfits : t.feed.Fits stream delivered d) :
    ∃ n, reads m f = withoutComments (reads n t) := by
  induction m generalizing t f delivered d with
  | zero => exact ⟨0, rfl⟩
  | succ m ih =>
      generalize hleft : stream.length - d.pos = left
      induction left using Nat.strong_induction_on generalizing t f delivered d with
      | _ left ihleft =>
          obtain ⟨delivered', d', hfits', -, hmoves⟩ := read_moves hfits
          rcases read_compared h hfits with ⟨hresult, hafter⟩ | ⟨hr, htoken, f', h', hread⟩
          · by_cases hr : t.read.1 = .ok true
            · obtain ⟨n, hn⟩ := ih (hafter hr).abreast_shown hfits'
              exact ⟨n + 1, reads_same hresult hafter fun _ => hn⟩
            · exact ⟨1, reads_same hresult hafter fun h => absurd h hr⟩
          · have hlt := hmoves hr htoken
            have hle : d'.pos ≤ stream.length := d'.pos_le.trans d'.seen_le
            obtain ⟨n, hn⟩ := ihleft (stream.length - d'.pos) (by omega) h' hfits' rfl
            exact ⟨n + 1, by rw [reads_congr hread, hn, withoutComments_reads_comment hr htoken]⟩

theorem abreast_ofSource (options : Options) (source : Source) (pool : Pool) (heeds : Bool) :
    Abreast (ofSource { options with surfaceComments := true } source pool heeds)
      (ofSource { options with surfaceComments := false } source pool heeds) :=
  ⟨rfl, rfl, rfl, rfl, rfl⟩

/-- Whatever the source delivers and however it does, reads that surface comments show, but for the
comments, what reads show that do not, and end in the same way. -/
theorem reads_without_comments (options : Options) (source : Source) (pool : Pool) (heeds : Bool) :
    let surfaced := ofSource { options with surfaceComments := true } source pool heeds
    let hidden := ofSource { options with surfaceComments := false } source pool heeds
    (∀ n, ∃ m, reads m hidden = withoutComments (reads n surfaced)) ∧
      ∀ m, ∃ n, reads m hidden = withoutComments (reads n surfaced) := by
  intro surfaced hidden
  have h := abreast_ofSource options source pool heeds
  have hfits := fits_ofSource { options with surfaceComments := true } source pool heeds
  exact ⟨fun n => exists_reads_hidden n h hfits, fun m => exists_reads_surfaced m h hfits⟩

/-- The comment in the text `[/**/]`. -/
example :
    let source : Source := .ofBytes ⟨#[0x5B, 0x2F, 0x2A, 0x2A, 0x2F, 0x5D]⟩
    let surfaced := reads 4 (ofSource { initialCapacity := 8 } source {} false)
    let hidden := reads 3 (ofSource { surfaceComments := false, initialCapacity := 8 } source {} false)
    surfaced.1.map (·.token) = [.opening .array, .comment, .closing .array] ∧
      hidden.1.map (·.token) = [.opening .array, .closing .array] ∧ hidden.2.isSome = true := by
  decide +kernel

end JsonPull.Tokenizer
