import JsonPull.Proofs.Grammar.Outline
import JsonPull.Proofs.Tokenizer.Whole

/-! # Paths and depths follow the tokens

The path and the depth of a reader are told by the tokens it has produced: each part of a container
moves its step once, on every way through the reader. -/

namespace JsonPull

open Outline

variable {settings : Settings} {s s' : State} {value? : Option Value}

namespace State

/-- The path and the depth of a token, as entries up to it tell them. -/
structure Stands (s : State) (entries : List Entry) : Prop where
  path_eq : s.path = Frame.path (place entries)
  depth_eq : s.depth = (place entries).length

theorem frames_countElement (s : State) : s.countElement.frames = s.frames.modifyHead .advance := by
  cases hf : s.frames <;> simp [countElement, hf]

/-- A step changes the open containers as its token does. -/
theorem Step.frames_eq (h : Step settings s s') (hopen : s.phase ≠ .closed)
    (hvalue : ∀ v, s'.slot = .owned v → value? = some v) :
    s'.frames = push s.frames (s'.token, value?) ∧ s'.phase ≠ .closed := by
  cases h with
  | scalar kind slot hphase h =>
      rw [h.frames_eq, h.token_eq, h.phase_eq, frames_publishScalar, token_publishScalar,
        phase_publishScalar, frames_countElement]
      refine ⟨rfl, ?_⟩
      split <;> nofun
  | opening c slot hphase hdepth h =>
      rw [h.frames_eq, h.token_eq, h.phase_eq, frames_publishOpening, frames_countElement]
      exact ⟨rfl, nofun⟩
  | closing c hphase hkind h =>
      rw [h.frames_eq, h.token_eq, h.phase_eq]
      refine ⟨rfl, ?_⟩
      unfold completeValue
      dsimp only
      split <;> nofun
  | name name hphase h =>
      have hname : value? = some (.string name) := hvalue _ h.slot_eq
      rw [h.frames_eq, h.token_eq, h.phase_eq, hname]
      refine ⟨?_, nofun⟩
      cases hf : s.frames <;> simp [publishName, hf] <;> rfl
  | comment slot h =>
      rw [h.frames_eq, h.token_eq, h.phase_eq]
      refine ⟨?_, hopen⟩
      cases hf : s.frames <;> simp [publishComment, hf] <;> rfl
  | nothing h =>
      rw [h.frames_eq, h.token_eq, h.phase_eq]
      refine ⟨?_, hopen⟩
      cases hf : s.frames <;> simp [publishNothing, hf] <;> rfl
  | closed hphase h => exact absurd hphase hopen

/-- Only in the phase behind the start of a container, the innermost one is not around the token. -/
theorem Step.phase_eq (h : Step settings s s') (hopen : s.phase ≠ .closed)
    (hcomment : s'.token ≠ .comment) (hnone : s'.token ≠ .none) :
    (∃ c, s'.phase = .opened c) ↔ s'.token.isStart = true := by
  cases h with
  | scalar kind slot hphase h =>
      rw [h.token_eq, h.phase_eq, token_publishScalar, phase_publishScalar]
      split <;> simp [Token.isStart]
  | opening c slot hphase hdepth h =>
      rw [h.token_eq, h.phase_eq]
      simp [publishOpening, Token.isStart]
  | closing c hphase hkind h =>
      rw [h.token_eq, h.phase_eq]
      unfold completeValue
      dsimp only
      split <;> simp [publishClosing, Token.isStart]
  | name name hphase h =>
      rw [h.token_eq, h.phase_eq]
      simp [publishName, Token.isStart]
  | comment slot h => exact absurd h.token_eq hcomment
  | nothing h => exact absurd h.token_eq hnone
  | closed hphase h => exact absurd hphase hopen

theorem path_eq {started : Bool} (h : (∃ c, s.phase = .opened c) ↔ started = true) :
    s.path = Frame.path (if started then s.frames.tail else s.frames).reverse := by
  unfold path
  split
  · rename_i c hphase
    rw [if_pos (h.mp ⟨c, hphase⟩)]
  · rename_i hphase
    rw [if_neg fun hstarted => (h.mpr hstarted).elim hphase]

/-- A call changes the open containers as its token does, and they tell where the token stands. A separator
or the end of the input leaves them as they are. -/
theorem Call.pushes (h : Call settings s s') (hopen : s.phase ≠ .closed)
    (hvalue : ∀ v, s'.slot = .owned v → value? = some v) :
    s'.frames = push s.frames (s'.token, value?) ∧ s'.phase ≠ .closed ∧
      (s'.token ≠ .comment → s'.token ≠ .none → s'.path = Frame.path (around s'.token s'.frames) ∧
        s'.depth = (around s'.token s'.frames).length) := by
  obtain ⟨s₁, hs₁, hopen₁, hstep⟩ : ∃ s₁ : State, s₁.frames = s.frames ∧ s₁.phase ≠ .closed ∧
      Step settings s₁ s' := by
    cases h with
    | direct hstep => exact ⟨s, rfl, hopen, hstep⟩
    | resumed hphase hstep =>
        exact ⟨s.resumeContainer settings, rfl, resumeContainer_ne_closed settings s, hstep⟩
    | ended hphase hstep => exact ⟨{ s with phase := .finished }, rfl, nofun, hstep⟩
  obtain ⟨hpush, hclosed⟩ := hstep.frames_eq hopen₁ hvalue
  rw [hs₁] at hpush
  refine ⟨hpush, hclosed, fun hcomment hnone => ⟨path_eq (hstep.phase_eq hopen₁ hcomment hnone), ?_⟩⟩
  rw [depth, around, List.length_reverse]
  split <;> simp

/-- A reader whose open containers are those of its tokens stands where they tell. -/
theorem Call.stands (h : Call settings s s') (hopen : s.phase ≠ .closed)
    (hvalue : ∀ v, s'.slot = .owned v → value? = some v) {entries : List Entry}
    (hframes : s.frames = stack entries) :
    s'.frames = stack (entries ++ [(s'.token, value?)]) ∧ s'.phase ≠ .closed ∧
      (s'.token ≠ .comment → s'.token ≠ .none → s'.Stands (entries ++ [(s'.token, value?)])) := by
  obtain ⟨hpush, hclosed, hplace⟩ := h.pushes hopen hvalue
  rw [hframes, ← stack_snoc] at hpush
  refine ⟨hpush, hclosed, fun hcomment hnone => ?_⟩
  obtain ⟨hpath, hdepth⟩ := hplace hcomment hnone
  rw [hpush] at hpath hdepth
  constructor <;> rwa [place_snoc]

end State

namespace View

/-- What a view shows of its token. -/
def entry (v : View) : Entry := (v.token, v.value?)

/-- The path and the depth of a view are told by the views up to it. -/
structure Stands (v : View) (before : List View) : Prop where
  path_eq : v.path = Frame.path (place ((before ++ [v]).map entry))
  depth_eq : v.depth = (place ((before ++ [v]).map entry)).length

end View

namespace Tokenizer

variable {stream delivered : List UInt8} {d : Reach stream.length} {t : Tokenizer}

/-- What is seen of successful calls stands where the tokens so far tell. -/
theorem stands_observe {calls : List Call} (hfits : t.feed.Fits stream delivered d)
    (hopen : t.state.phase ≠ .closed) {seen : List View}
    (hframes : t.state.frames = stack (seen.map View.entry))
    (hok : ∀ shown ∈ t.observe calls, ∃ a, shown.1 = .ok a) {before after : List View} {v : View}
    (hviews : (t.observe calls).map (·.2) = before ++ v :: after) (hcomment : v.token ≠ .comment)
    (hnone : v.token ≠ .none) :
    v.Stands (seen ++ before) := by
  induction calls generalizing t seen before delivered d with
  | nil => cases before <;> cases hviews
  | cons c calls ih =>
      obtain ⟨delivered', d', hcalled⟩ := called c hfits
      obtain ⟨a, ha⟩ := hok _ List.mem_cons_self
      have hvalue : ∀ value, (t.call c).2.state.slot = .owned value →
          (t.call c).2.view.value? = some value := by
        intro value hslot
        simp only [view, value?, hslot]
      obtain ⟨hnext, hclosed, hstands⟩ := (hcalled.step a ha).stands hopen hvalue hframes
      have hseen : (seen ++ [(t.call c).2.view]).map View.entry =
          seen.map View.entry ++ [((t.call c).2.state.token, (t.call c).2.view.value?)] :=
        List.map_append
      cases before with
      | nil =>
          cases hviews
          obtain ⟨hpath, hdepth⟩ := hstands hcomment hnone
          rw [List.append_nil]
          refine ⟨?_, ?_⟩ <;> rw [hseen] <;> assumption
      | cons b before =>
          obtain ⟨rfl, hrest⟩ := List.cons.inj hviews
          have hlast : v.Stands (seen ++ [(t.call c).2.view] ++ before) :=
            ih hcalled.moves.fits hclosed (hseen ▸ hnext)
              (fun shown h => hok shown (List.mem_cons_of_mem _ h)) hrest
          rwa [List.append_assoc] at hlast

/-- However many calls succeed on whatever input: the path and the depth of each token are those that
the tokens up to it tell, and at the end of a container they are those of its start. -/
theorem place_of_tokens (options : Options) (source : Source) (pool : Pool) (heeds : Bool)
    (calls : List Call)
    (hok : ∀ shown ∈ (ofSource options source pool heeds).observe calls, ∃ a, shown.1 = .ok a) :
    let views := ((ofSource options source pool heeds).observe calls).map (·.2)
    (∀ before v after, views = before ++ v :: after → v.token ≠ .comment → v.token ≠ .none →
      v.Stands before) ∧
    ∀ before v inner v' after, views = before ++ v :: inner ++ v' :: after →
      v.token.isStart = true → v'.token.isEnd = true → Within (inner.map View.entry) →
        v'.path = v.path ∧ v'.depth = v.depth := by
  intro views
  have hstands : ∀ before v after, views = before ++ v :: after → v.token ≠ .comment →
      v.token ≠ .none → v.Stands before := by
    intro before v after hviews hcomment hnone
    have hframes : (ofSource options source pool heeds).state.frames =
        stack (([] : List View).map View.entry) := rfl
    exact stands_observe (fits_ofSource options source pool heeds) nofun hframes hok hviews hcomment
      hnone
  refine ⟨hstands, ?_⟩
  intro before v inner v' after hviews hstart hend hinner
  have hv : v.Stands before := by
    refine hstands before v (inner ++ v' :: after) (by rw [hviews, List.append_assoc]; rfl) ?_ ?_ <;>
      rintro h <;> rw [h] at hstart <;> cases hstart
  have hv' : v'.Stands (before ++ v :: inner) := by
    refine hstands _ v' after hviews ?_ ?_ <;> rintro h <;> rw [h] at hend <;> cases hend
  have hstart' : v.entry.1.isStart = true := hstart
  have hend' : v'.entry.1.isEnd = true := hend
  have hplace := place_end (before.map View.entry) hstart' hend' hinner
  have hmap : (before ++ v :: inner ++ [v']).map View.entry =
      before.map View.entry ++ v.entry :: inner.map View.entry ++ [v'.entry] := by simp
  have hmap' : (before ++ [v]).map View.entry = before.map View.entry ++ [v.entry] := by simp
  refine ⟨?_, ?_⟩
  · rw [hv'.path_eq, hv.path_eq, hmap, hmap', hplace]
  · rw [hv'.depth_eq, hv.depth_eq, hmap, hmap', hplace]

/-- The text `{"a":[,/**/[1,2],[3]]}` with an array read as bytes: the elided element and the bytes
count as one element each, the comment as none. -/
theorem place_of_nested_number :
    let t := ofSource { initialCapacity := 8 } (Source.ofBytes ⟨#[0x7B, 0x22, 0x61, 0x22, 0x3A, 0x5B,
      0x2C, 0x2F, 0x2A, 0x2A, 0x2F, 0x5B, 0x31, 0x2C, 0x32, 0x5D, 0x2C, 0x5B, 0x33, 0x5D, 0x5D,
      0x7D]⟩) {} false
    let shown := t.observe [.read, .read, .read, .read, .read, .readAs .bytes, .read,
      .readAs .int32, .read, .read, .read]
    let views := shown.map (·.2)
    (∀ x ∈ shown, ∃ a, x.1 = .ok a) ∧
      (∃ v, views = views.take 7 ++ v :: views.drop 8 ∧ v.token = .scalar .integer ∧
        v.Stands (views.take 7) ∧ v.path = "a[2][0]" ∧ v.depth = 3) ∧
      ∃ v v', views = views.take 2 ++ v :: (views.drop 3).take 6 ++ v' :: views.drop 10 ∧
        v.token.isStart = true ∧ v'.token.isEnd = true ∧
        Within (((views.drop 3).take 6).map View.entry) ∧ v'.path = v.path ∧ v'.depth = v.depth ∧
        v'.path = "a" := by
  intro t shown views
  have hok : ∀ x ∈ shown, ∃ a, x.1 = .ok a := by
    have hall : shown.all (·.1.isOk) = true := by decide +kernel
    intro x hx
    have h := List.all_eq_true.mp hall x hx
    cases hr : x.1 with
    | ok a => exact ⟨a, rfl⟩
    | error e => simp [hr, Except.isOk, Except.toBool] at h
  have hsplit : ∀ (l : List View) (n : Nat) (v : View), l[n]? = some v →
      l = l.take n ++ v :: l.drop (n + 1) := by
    intro l n v hv
    obtain ⟨hlt, rfl⟩ := List.getElem?_eq_some_iff.mp hv
    rw [List.cons_getElem_drop_succ, List.take_append_drop]
  obtain ⟨hstands, hends⟩ := place_of_tokens _ _ _ _ _ hok
  have hnumber : ∃ v ∈ views[7]?, v.token = .scalar .integer ∧ v.path = "a[2][0]" ∧ v.depth = 3 := by
    decide +kernel
  have hopening : ∃ v ∈ views[2]?, v.token.isStart = true ∧ v.path = "a" := by decide +kernel
  have hclosing : ∃ v ∈ (views.drop 3)[6]?, v.token.isEnd = true := by decide +kernel
  have hinner : Within (((views.drop 3).take 6).map View.entry) := by decide +kernel
  obtain ⟨v, hv, htoken, hpath, hdepth⟩ := hnumber
  obtain ⟨v₁, hv₁, hstart, hpath₁⟩ := hopening
  obtain ⟨v₂, hv₂, hend⟩ := hclosing
  have hviews : views = views.take 7 ++ v :: views.drop 8 := hsplit views 7 v hv
  have hviews' : views = views.take 2 ++ v₁ :: (views.drop 3).take 6 ++ v₂ :: views.drop 10 := by
    conv_lhs => rw [hsplit views 2 v₁ hv₁, hsplit (views.drop 3) 6 v₂ hv₂]
    rw [List.drop_drop, List.append_assoc]
    rfl
  obtain ⟨hpath', hdepth'⟩ := hends _ v₁ _ v₂ _ hviews' hstart hend hinner
  exact ⟨hok, ⟨v, hviews, htoken, hstands _ v _ hviews (by simp [htoken]) (by simp [htoken]), hpath,
    hdepth⟩, v₁, v₂, hviews', hstart, hend, hinner, hpath', hdepth', hpath'.trans hpath₁⟩

end Tokenizer

end JsonPull
