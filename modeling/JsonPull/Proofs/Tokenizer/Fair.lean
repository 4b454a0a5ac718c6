import JsonPull.Proofs.Reading.Twin
import JsonPull.Proofs.Tokenizer.Whole

/-! # Fetches that fail

A source may fail now and then, and calls may be cancelled. Such a fault ends the call that meets
it. A call that ends otherwise met none, and it is the call on the whole stream. -/

namespace JsonPull

variable {stream delivered : List UInt8}

/-- The faults of earlier calls are forgotten. -/
def Reach.calm {total : Nat} (d : Reach total) : Reach total :=
  { d with faulted := false }

theorem Feed.Fits.calm {feed : Feed} {d : Reach stream.length}
    (h : feed.Fits stream delivered d) : feed.Fits stream delivered d.calm :=
  ⟨h.follows, h.anchored, h.cursor, h.seen⟩

theorem Whole.run_iff_ends {α : Type} {settings : Settings} {x : Reading α} {r r' : Whole} {a : α} :
    r.run settings stream x = (.ok a, r') ↔
      x.Ends settings stream r.state r.cursor a r'.state r'.cursor := by
  unfold run Reading.Ends
  generalize ((x.run settings).run.run r.state).runWith (tape stream) r.cursor = outcome
  obtain ⟨⟨result, s⟩, pos⟩ := outcome
  obtain ⟨s', pos'⟩ := r'
  simp only [Prod.mk.injEq, mk.injEq, and_assoc]

namespace Tokenizer

/-- A tokenizer whose source reads nothing only at its end, and whose value is where it should
be. -/
structure Upright (stream : List UInt8) (t : Tokenizer) : Prop where
  fair : t.feed.Fair
  held : ∃ delivered, ∃ d : Reach stream.length, t.feed.Fits stream delivered d ∧ t.state.Held d

/-- The outcome of a call that met no fault. -/
def Settled {α : Type} (outcome : Except ReadError α) : Prop :=
  ∀ e, outcome = .error e → e.kind.isFault = false

theorem settled_ok {α : Type} (a : α) : Settled (.ok a) := nofun

theorem settled_map {α β : Type} {f : α → β} {outcome : Except ReadError α}
    (h : Settled (outcome.map f)) : Settled outcome := by
  rintro e rfl
  exact h e rfl

variable {t : Tokenizer} {c : Call}

theorem run_whole_settled {α : Type} {x : Reading α} {d : Reach stream.length}
    {ok : α → State → Reach stream.length → Prop}
    {err : ReadError → State → Reach stream.length → Prop} (hfair : t.feed.Fair)
    (hfits : t.feed.Fits stream delivered d)
    (h : x.Ensures t.options.settings t.state d.calm ok err) (hsettled : Settled (t.run x).1) :
    ((t.run x).1, (t.run x).2.whole) = t.whole.run t.options.settings stream x := by
  obtain ⟨d', hpost, -, htape⟩ := Feed.run_fair hfair hfits.calm h.run
  have hcalm : d'.faulted = false := by
    by_contra hfaulted
    rw [Bool.not_eq_false] at hfaulted
    unfold run at hsettled
    dsimp only at hsettled
    generalize t.feed.run ((x.run t.options.settings).run.run t.state) = outcome at hpost hsettled
    obtain ⟨⟨e | a, s⟩, feed⟩ := outcome
    · rcases hpost.1 hfaulted with hnever | hfault
      · cases hnever
      · rw [hsettled e rfl] at hfault
        cases hfault
    · cases hpost.1 hfaulted
  obtain ⟨hresult, hcursor⟩ := htape hcalm
  rw [hfits.calm.cursor] at hresult hcursor
  have hfst : (t.run x).1 = (t.whole.run t.options.settings stream x).1 := congrArg (·.1) hresult
  have hsnd : (t.run x).2.whole = (t.whole.run t.options.settings stream x).2 :=
    congrArg₂ Whole.mk (congrArg (·.2) hresult) hcursor
  exact Prod.ext hfst hsnd

theorem Upright.call (h : t.Upright stream) (c : Call) : (t.call c).2.Upright stream := by
  obtain ⟨delivered, d, hfits, hheld⟩ := h.held
  obtain ⟨delivered', d', hcalled⟩ := called c hfits
  exact ⟨hcalled.moves.fair h.fair, delivered', d', hcalled.moves.fits, hcalled.held⟩

/-- A call that met no fault is the call on the whole stream. -/
theorem Upright.call_whole (h : t.Upright stream) (hsettled : Settled (t.call c).1) :
    ((t.call c).1, (t.call c).2.whole) = t.whole.call t.options.settings stream c := by
  obtain ⟨delivered, d, hfits, hheld⟩ := h.held
  obtain ⟨delivered', d', hcalled⟩ := called c hfits
  refine Tokenizer.call_whole ?_ hcalled.moves.fits hcalled.held
  rw [call_eq] at hsettled
  exact run_whole_settled h.fair hfits (ensures_program c t.state d.calm t.options.settings)
    (settled_map hsettled)

theorem Upright.view (h : t.Upright stream) : t.view = t.whole.view stream := by
  obtain ⟨delivered, d, hfits, hheld⟩ := h.held
  exact view_whole hfits hheld

theorem upright_ofSource (options : Options) {source : Source} (h : source.Fair) (pool : Pool)
    (heeds : Bool) : (ofSource options source pool heeds).Upright source.bytes :=
  ⟨⟨h, nofun⟩, [], _, fits_ofSource options source pool heeds, State.held_of_empty rfl _⟩

/-! ## Calls that succeed -/

variable {t' : Tokenizer}

theorem run_ends {α : Type} {x : Reading α} {a : α} (h : t.Upright stream)
    (hx : ∀ d : Reach stream.length, ∃ ok err, x.Ensures t.options.settings t.state d ok err)
    (hrun : t.run x = (.ok a, t')) :
    x.Ends t.options.settings stream t.state t.feed.window.cursor a t'.state
      t'.feed.window.cursor := by
  obtain ⟨delivered, d, hfits, -⟩ := h.held
  obtain ⟨ok, err, hensures⟩ := hx d.calm
  have hsettled : Settled (t.run x).1 := by
    rw [hrun]
    exact settled_ok a
  have hwhole := run_whole_settled h.fair hfits hensures hsettled
  rw [hrun] at hwhole
  exact Whole.run_iff_ends.mp hwhole.symm

theorem pair_eq {β γ : Type} {p : β × γ} {b : β} (h : p.1 = b) : p = (b, p.2) :=
  Prod.ext h rfl

theorem call_read_eq {result : Except ReadError Bool} (h : t.read = (result, t')) :
    t.call .read = (result.map .found, t') := by
  have hcall : t.call .read = (t.read.1.map .found, t.read.2) := rfl
  rw [hcall, h]

theorem read_ends {b : Bool} (h : t.Upright stream) (hread : t.read = (.ok b, t')) :
    Reading.token.Ends t.options.settings stream t.state.clearSlot t.feed.window.cursor b t'.state
      t'.feed.window.cursor :=
  run_ends h (fun d => ⟨_, _, ensures_next t.state d t.options.settings⟩) hread

theorem readAs_ends {form : Form} {answer : Answer} (h : t.Upright stream)
    (hread : t.call (.readAs form) = (.ok answer, t')) :
    (Reading.requested form.request).Ends t.options.settings stream t.state.clearSlot
      t.feed.window.cursor () t'.state t'.feed.window.cursor := by
  have hcall : t.call (.readAs form) = _ := readForm_eq form t
  rw [hcall] at hread
  cases hr : (t.run (requesting form.request)).1 with
  | error e => simp [hr, Except.map] at hread
  | ok a =>
      have hlast := congrArg (·.2) hread
      exact run_ends h (fun d => ⟨_, _, ensures_requesting form.request t.state d t.options.settings⟩)
        (Prod.ext hr hlast)

end Tokenizer

end JsonPull
