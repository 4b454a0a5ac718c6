import JsonPull.Proofs.DateText
import JsonPull.Proofs.Stream.Watch
import JsonPull.Proofs.Tokenizer.Operation

/-! # Operations are watched

A tokenizer may be shown between any two operations, whether they succeeded or not: its window is in
bounds then, and a value that is held was referred to and did not move since. No operation trips the
watch that goes along with it, and none fails because of a defect of the reader. -/

namespace JsonPull

namespace Tokenizer

/-- Checks what showing a tokenizer takes from its window. -/
def inspect (t : Tokenizer) (watch : Watch) : Checked Unit := do
  check t.feed.window.InBounds .index
  match t.state.slot with
  | .held span =>
    watch.checkRef t.feed.window span
    check (t.feed.window.Covers span.first span.last) .index
  | _ => return ()

/-- Goes along with a program of the reader. -/
def watchRun {α : Type} (reading : Reading α) (t : Tokenizer) (watch : Watch) : Checked Watch :=
  watch.follow ((reading.run t.options.settings).run.run t.state) t.feed

/-- Goes along with an operation. Only calls use the window. -/
def watchOperation : Operation → Tokenizer → Watch → Checked Watch
  | .call .read, t, watch => t.watchRun next watch
  | .call (.readAs form), t, watch => t.watchRun (requesting form.request) watch
  | _, _, watch => return watch

/-- Goes along with several operations, and shows the tokenizer before, between and after them. -/
def watchAll : List Operation → Tokenizer → Watch → Checked Watch
  | [], t, watch => do
    t.inspect watch
    return watch
  | op :: ops, t, watch => do
    t.inspect watch
    watchAll ops (t.after op) (← t.watchOperation op watch)

/-! ## Safe tokenizers -/

/-- A tokenizer whose value is still where it was, or one that is closed and has none. -/
inductive Safe (stream : List UInt8) (t : Tokenizer) (watch : Watch) : Prop where
  | running {delivered : List UInt8} {d : Reach stream.length}
      (fits : t.feed.Fits stream delivered d) (held : t.state.Held d)
      (keeps : watch.Keeps t.feed.window d)
  | closed (phase : t.phase = .closed) (slot : t.state.slot = .empty)
      (bounds : t.feed.window.InBounds)

variable {stream : List UInt8} {t : Tokenizer} {watch : Watch}

theorem Safe.inspect (h : Safe stream t watch) : t.inspect watch = .ok () := by
  unfold Tokenizer.inspect
  cases h with
  | running fits held keeps =>
      have hholds := fits.follows.holds
      rw [Checked.bind_of (check_of ⟨hholds.pos_le, hholds.used_le⟩ _)]
      split
      · rename_i span hslot
        have hspan := held span hslot
        have hresolve : (Query.resolve span.first span.last).Permitted _ := hspan
        exact Watch.checkQuery_permitted fits keeps hresolve
      · rfl
  | closed phase slot bounds =>
      rw [Checked.bind_of (check_of bounds _), slot]
      rfl

/-- Every run of a program that leaves its value held is safe. -/
theorem watchRun_ensures {α : Type} {x : Reading α} {delivered : List UInt8}
    {d : Reach stream.length} (hfits : t.feed.Fits stream delivered d)
    (hkeeps : watch.Keeps t.feed.window d)
    (h : x.Ensures t.options.settings t.state d
      (fun _ s' d' => State.Call t.options.settings t.state.clearSlot s' ∧ s'.Held d')
      State.Failed) :
    ∃ watch', t.watchRun x watch = .ok watch' ∧ Safe stream (t.run x).2 watch' := by
  obtain ⟨watch', d', delivered', hfollow, hpost, hfits', hkeeps'⟩ :=
    Watch.follow_ensures h.run hfits hkeeps
  refine ⟨watch', hfollow, .running hfits' ?_ hkeeps'⟩
  unfold run
  dsimp only
  generalize t.feed.run ((x.run t.options.settings).run.run t.state) = outcome at hpost ⊢
  obtain ⟨⟨e | a, s⟩, feed⟩ := outcome
  · exact hpost.2.held
  · exact hpost.2.2

/-- A program that does nothing to a closed tokenizer but to clear its value. -/
theorem watchRun_closed {α : Type} {x : Reading α} {r : Except ReadError α}
    (h : (x.run t.options.settings).run.run t.state = .done (r, t.state.clearSlot))
    (hphase : t.phase = .closed) (hbounds : t.feed.window.InBounds) :
    ∃ watch', t.watchRun x watch = .ok watch' ∧ Safe stream (t.run x).2 watch' := by
  unfold watchRun run
  rw [h]
  exact ⟨watch, rfl, .closed hphase rfl hbounds⟩

theorem Safe.close (h : Safe stream t watch) : Safe stream t.close watch := by
  unfold Tokenizer.close
  split
  · exact h
  · refine .closed rfl rfl ?_
    dsimp only
    split
    · exact ⟨le_rfl, le_rfl⟩
    · exact ⟨le_rfl, le_rfl⟩

/-- What is done to the feed and leaves its window and source alone is safe. -/
theorem Safe.of_feed (h : Safe stream t watch) {feed : Feed} (hwindow : feed.window = t.feed.window)
    (hsource : feed.source = t.feed.source) : Safe stream { t with feed } watch := by
  cases h with
  | running fits held keeps =>
      refine .running ⟨⟨?_, ?_⟩, ?_, ?_, fits.seen⟩ held ?_
      · exact hwindow ▸ fits.follows.holds
      · exact hsource ▸ fits.follows.split
      · exact hwindow ▸ fits.anchored
      · exact hwindow ▸ fits.cursor
      · exact hwindow ▸ keeps
  | closed phase slot bounds => exact .closed phase slot (hwindow ▸ bounds)

/-- No operation on a safe tokenizer trips the watch, and it leaves the tokenizer safe. -/
theorem Safe.operation (h : Safe stream t watch) (op : Operation) :
    ∃ watch', t.watchOperation op watch = .ok watch' ∧ Safe stream (t.after op) watch' := by
  cases op with
  | call c =>
      have hwatch : t.watchOperation (.call c) watch = t.watchRun c.program watch := by
        cases c <;> rfl
      have hafter : t.after (.call c) = (t.run c.program).2 := congrArg Prod.snd (call_eq c t)
      rw [hwatch, hafter]
      cases h with
      | running fits held keeps => exact watchRun_ensures fits keeps (ensures_program c _ _ _)
      | closed phase slot bounds =>
          obtain ⟨r, hrun⟩ := run_program_closed _ c phase
          exact watchRun_closed hrun phase bounds
  | heed b => exact ⟨watch, rfl, h.of_feed rfl rfl⟩
  | cancel => exact ⟨watch, rfl, h.of_feed rfl rfl⟩
  | uncancel => exact ⟨watch, rfl, h.of_feed rfl rfl⟩
  | close => exact ⟨watch, rfl, h.close⟩

theorem Safe.all (h : Safe stream t watch) (ops : List Operation) :
    ∃ watch', t.watchAll ops watch = .ok watch' ∧ Safe stream (t.afterAll ops) watch' := by
  induction ops generalizing t watch with
  | nil =>
      refine ⟨watch, ?_, h⟩
      unfold watchAll
      rw [Checked.bind_of h.inspect]
      rfl
  | cons op ops ih =>
      obtain ⟨watch₁, hop, h₁⟩ := h.operation op
      obtain ⟨watch₂, hops, h₂⟩ := ih h₁
      refine ⟨watch₂, ?_, h₂⟩
      unfold watchAll
      rw [Checked.bind_of h.inspect, Checked.bind_of hop]
      exact hops

theorem safe_ofSource (options : Options) (source : Source) (pool : Pool) (heeds : Bool) :
    Safe source.bytes (ofSource options source pool heeds) {} :=
  .running (fits_ofSource options source pool heeds) (State.held_of_empty rfl _)
    (Watch.keeps_nothing _ _ rfl rfl)

theorem call_closed (c : Call) (h : t.phase = .closed) : ∃ a, (t.call c).1 = .ok a := by
  obtain ⟨r, hrun⟩ := run_program_closed t.options.settings c h
  rw [call_eq]
  simp only [run, hrun]
  exact ⟨_, rfl⟩

theorem Safe.faultless (h : Safe stream t watch) (c : Call) {e : ReadError}
    (he : (t.call c).1 = .error e) : e.kind.isDefect = false := by
  cases h with
  | running fits held keeps =>
      obtain ⟨delivered', d', hcalled⟩ := called c fits
      exact hcalled.faultless e he
  | closed phase slot bounds =>
      obtain ⟨a, ha⟩ := call_closed c phase
      rw [ha] at he
      cases he

/-! ## All runs -/

/-- However a tokenizer is used and shown, before and after failures, cancellation and the close,
no index leaves its range, no byte is asked for that has moved, and no call fails because of a
defect of the reader. Whatever text may be a date, no index leaves it and no number its word. -/
theorem watchAll_ok (options : Options) (source : Source) (pool : Pool) (heeds : Bool)
    (ops : List Operation) :
    (∃ watch, (ofSource options source pool heeds).watchAll ops {} = .ok watch) ∧
    (∀ c e, (((ofSource options source pool heeds).afterAll ops).call c).1 = .error e →
      e.kind.isDefect = false) ∧
    ∀ keepOffset bytes, (DateText.find keepOffset bytes).run =
      .ok (DateText.ofBytes? keepOffset bytes) := by
  obtain ⟨watch, hwatch, hsafe⟩ := (safe_ofSource options source pool heeds).all ops
  exact ⟨⟨watch, hwatch⟩, fun c e he => hsafe.faultless c he, DateText.finds_date⟩

/-- A fault within a string: the call that meets it fails, and later calls and the close are safe. -/
theorem watchAll_ok_broken_string :
    let source : Source :=
      { script := [.bytes ⟨#[0x5B, 0x22, 0x61]⟩ 0, .failure "reset", .bytes ⟨#[0x22, 0x5D]⟩ 0] }
    let start := ofSource { initialCapacity := 2 } source {} false
    let e : ReadError := ⟨.io "reset", "", 1, 3⟩
    ((start.afterAll [.call .read]).call .read).1 = .error e ∧ e.kind.isDefect = false ∧
      ∃ watch, start.watchAll [.call .read, .call .read, .call .read, .close, .call .read] {} =
        .ok watch := by
  intro source start e
  have hfault : ((start.afterAll [.call .read]).call .read).1 = .error e := by decide +kernel
  have hkind := (watchAll_ok _ source {} false [.call .read]).2.1 .read e hfault
  have hwatch := (watchAll_ok { initialCapacity := 2 } source {} false
    [.call .read, .call .read, .call .read, .close, .call .read]).1
  exact ⟨hfault, hkind, hwatch⟩

end Tokenizer

end JsonPull
