import JsonPull.Proofs.Reading.Evolve
import JsonPull.Proofs.Tokenizer.Call

/-! # Runs of programs

A program is run on a tokenizer part by part: what one part leaves, the next one goes on with, and
a failure ends the run. -/

namespace JsonPull.Tokenizer

open State Reading

variable {α β τ : Type} {t : Tokenizer} {settings : Settings}

/-! ## Composed programs -/

theorem straight_program (c : Call) : c.program.Straight .evolving := by
  cases c with
  | read => exact (Straight.change fun _ _ => .cleared).bind fun _ => straight_token
  | readAs form =>
      exact (Straight.change fun _ _ => .cleared).bind fun _ => straight_requested form.request

theorem run_bind (x : Reading β) (k : β → Reading α) (t : Tokenizer) :
    t.run (x >>= k) = match t.run x with
      | (.ok b, t) => t.run (k b)
      | (.error e, t) => (.error e, t) := by
  unfold run Feed.run
  rw [Reading.run_bind, Scan.runWith_bind]
  generalize ((x.run t.options.settings).run.run t.state).runWith Feed.answer t.feed = outcome
  obtain ⟨⟨e | b, s⟩, feed⟩ := outcome <;> rfl

theorem run_bind_ok {x : Reading β} {b : β} (h : (t.run x).1 = .ok b) (k : β → Reading α) :
    t.run (x >>= k) = (t.run x).2.run (k b) := by
  rw [run_bind]
  generalize t.run x = outcome at h ⊢
  obtain ⟨r, t'⟩ := outcome
  obtain rfl : r = .ok b := h
  rfl

theorem run_bind_error {x : Reading β} {e : ReadError} (h : (t.run x).1 = .error e)
    (k : β → Reading α) : t.run (x >>= k) = (.error e, (t.run x).2) := by
  rw [run_bind]
  generalize t.run x = outcome at h ⊢
  obtain ⟨r, t'⟩ := outcome
  obtain rfl : r = .error e := h
  rfl

theorem run_read_bind (k : Settings → Reading α) (t : Tokenizer) :
    t.run (MonadReader.read >>= k) = t.run (k t.options.settings) := rfl

theorem run_get_bind (k : State → Reading α) (t : Tokenizer) :
    t.run (get >>= k) = t.run (k t.state) := rfl

theorem run_byte? {ahead : Nat} {retain : Retain} {b : Option UInt8}
    (h : (t.feed.byte? ahead retain).1 = .ok b) :
    t.run (byte? ahead retain) = (.ok b, { t with feed := (t.feed.byte? ahead retain).2 }) := by
  have hask : t.run (ask (.byte ahead retain)) = ((Except.ok (t.feed.byte? ahead retain).1),
      { t with feed := (t.feed.byte? ahead retain).2 }) := rfl
  rw [h] at hask
  rw [Reading.byte?, run_bind, hask]
  rfl

/-- What a reading always leaves, its run leaves. -/
theorem run_leaves {x : Reading α} {ok : α → State → Prop} {err : ReadError → State → Prop}
    (h : x.Leaves t.options.settings t.state ok err) :
    match (t.run x).1 with
    | .ok a => ok a (t.run x).2.state
    | .error e => err e (t.run x).2.state := by
  have hrun := h.run.runWith Feed.answer t.feed
  unfold run Feed.run
  dsimp only
  generalize Scan.runWith Feed.answer ((x.run t.options.settings).run.run t.state) t.feed = outcome
    at hrun ⊢
  obtain ⟨⟨e | a, s⟩, feed⟩ := outcome <;> exact hrun

theorem Calm.run {x : Reading α} (h : x.Calm) {a : α} (ha : (t.run x).1 = .ok a) :
    t.state.Lined (t.run x).2.state := by
  have hleaves := run_leaves (h.leaves t.options.settings t.state)
  rw [ha] at hleaves
  exact hleaves

/-! ## Repetitions -/

/-- A repetition that stops in its first turn. -/
theorem run_repeating_stop {turn : τ → Reading (Turn τ α)} {x : τ} {a : α} {t' : Tokenizer}
    (h : t.run (turn x) = (.ok (.stop a), t')) : t.run (repeating turn x) = (.ok a, t') := by
  have hstart : t.run (repeating turn x) = t.run (repeatAtMost turn (t.feed.budget + 1) x) := rfl
  rw [hstart, repeatAtMost, run_bind, h]
  rfl

/-- The outcome of a run that met no defect. -/
def Sane (outcome : Except ReadError α) : Prop :=
  ∀ e, outcome = .error e → e.kind.isDefect = false

theorem Sane.of_bind {x : Reading β} {k : β → Reading α} (h : Sane (t.run (x >>= k)).1) :
    Sane (t.run x).1 := by
  intro e he
  exact h e (by rw [run_bind_error he])

/-- A repetition that ends does not depend on how many turns it is allowed. -/
theorem run_repeatAtMost {turn : τ → Reading (Turn τ α)} {n m : Nat} {x : τ}
    (hn : Sane (t.run (repeatAtMost turn n x)).1) (hm : Sane (t.run (repeatAtMost turn m x)).1) :
    t.run (repeatAtMost turn n x) = t.run (repeatAtMost turn m x) := by
  induction n generalizing m x t with
  | zero => cases hn _ rfl
  | succ n ih =>
      cases m with
      | zero => cases hm _ rfl
      | succ m =>
          unfold repeatAtMost at hn hm ⊢
          rw [run_bind] at hn hm ⊢
          rw [run_bind]
          generalize t.run (turn x) = outcome at hn hm ⊢
          obtain ⟨⟨e⟩ | r, t'⟩ := outcome
          · rfl
          · cases r with
            | again y => exact ih hn hm
            | stop a => rfl

/-! ## Where a run leads -/

/-- Where a run leads if it succeeds. -/
def Leads (t : Tokenizer) (x : Reading α) (post : α → Tokenizer → Prop) : Prop :=
  ∀ a, (t.run x).1 = .ok a → post a (t.run x).2

section Leads

variable {post post' : α → Tokenizer → Prop} {mid : β → Tokenizer → Prop}

theorem leads_true (t : Tokenizer) (x : Reading α) : t.Leads x fun _ _ => True := fun _ _ => trivial

theorem Leads.mono {x : Reading α} (h : t.Leads x post) (hpost : ∀ a t', post a t' → post' a t') :
    t.Leads x post' :=
  fun a ha => hpost a _ (h a ha)

theorem Leads.and {x : Reading α} (h : t.Leads x post) (h' : t.Leads x post') :
    t.Leads x fun a t' => post a t' ∧ post' a t' :=
  fun a ha => ⟨h a ha, h' a ha⟩

theorem leads_pure {a : α} (h : post a t) : t.Leads (pure a) post := by
  rintro _ ⟨⟩
  exact h

theorem leads_fail (t : Tokenizer) (kind : ErrorKind) : t.Leads (fail kind : Reading α) post :=
  nofun

theorem leads_modify {f : State → State} {post : Unit → Tokenizer → Prop}
    (h : post () { t with state := f t.state }) : t.Leads (modify f) post :=
  fun _ _ => h

theorem leads_update {f : Settings → State → State} {post : Unit → Tokenizer → Prop}
    (h : post () { t with state := f t.options.settings t.state }) : t.Leads (update f) post :=
  fun _ _ => h

theorem leads_get_bind {k : State → Reading α} (h : t.Leads (k t.state) post) :
    t.Leads (get >>= k) post := h

theorem leads_read_bind {k : Settings → Reading α} (h : t.Leads (k t.options.settings) post) :
    t.Leads (MonadReader.read >>= k) post := h

theorem Leads.bind {x : Reading β} {k : β → Reading α} (h : t.Leads x mid)
    (hk : ∀ b t', mid b t' → t'.Leads (k b) post) : t.Leads (x >>= k) post := by
  intro a ha
  cases hr : (t.run x).1 with
  | error e =>
      rw [run_bind_error hr] at ha
      cases ha
  | ok b =>
      rw [run_bind_ok hr] at ha ⊢
      exact hk b _ (h b hr) a ha

theorem leads_bind_of_run {x : Reading β} {k : β → Reading α} {b : β} {t' : Tokenizer}
    (h : t.run x = (.ok b, t')) (hk : t'.Leads (k b) post) : t.Leads (x >>= k) post := by
  intro a ha
  rw [run_bind, h] at ha ⊢
  exact hk a ha

theorem Calm.leads {x : Reading α} (h : x.Calm) (t : Tokenizer) :
    t.Leads x fun _ t' => t.state.Lined t'.state :=
  fun _ ha => Calm.run h ha

/-- Where a turn leads: the invariant of the repetition, or the result. -/
@[reducible] def Turned (inv : τ → Tokenizer → Prop) (post : α → Tokenizer → Prop) :
    Turn τ α → Tokenizer → Prop
  | .again x, t => inv x t
  | .stop a, t => post a t

theorem leads_repeating {turn : τ → Reading (Turn τ α)} (inv : τ → Tokenizer → Prop)
    (hturn : ∀ x t, inv x t → t.Leads (turn x) (Turned inv post)) {x : τ} (h : inv x t) :
    t.Leads (repeating turn x) post := by
  refine repeatAtMost_induction (fun x y => ∀ t : Tokenizer, inv x t → t.Leads y post)
    (fun _ _ t _ => leads_fail t _) ?_ (t.feed.budget + 1) x t h
  intro x next ih t h
  refine (hturn x t h).bind ?_
  rintro (x' | a) t' hr
  · exact ih x' t' hr
  · exact leads_pure hr

end Leads

end JsonPull.Tokenizer
