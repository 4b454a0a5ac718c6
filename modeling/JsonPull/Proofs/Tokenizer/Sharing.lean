import JsonPull.Proofs.Stream.Pool
import JsonPull.Proofs.Tokenizer.End

/-! # Tokenizers that share a pool

Several tokenizers may take their storage from one pool, and be made, used, closed and dropped in any
order. Each of them has one block as long as it is open. So the blocks that the pool allocated are
the free ones and one for each open tokenizer, and all of them are free again in the end. -/

namespace JsonPull

namespace Tokenizer

/-- The number of blocks that a tokenizer has. -/
def inUse (t : Tokenizer) : Nat := if t.phase = .closed then 0 else 1

/-- The tokenizer goes on with a pool that others may have used meanwhile. -/
def supply (pool : Pool) (t : Tokenizer) : Tokenizer :=
  { t with feed := { t.feed with pool := some pool } }

/-- A tokenizer that has a block exactly while it is open, over a pool of which `others` further
blocks are in use. -/
structure Stocked (t : Tokenizer) (others : Nat) : Prop where
  pool : ∃ pool, t.feed.pool = some pool ∧ pool.Balances (others + t.inUse)
  capacity : t.feed.window.capacity = 0 ↔ t.phase = .closed

variable {t : Tokenizer} {others : Nat}

theorem inUse_closed (h : t.phase = .closed) : t.inUse = 0 := if_pos h

theorem inUse_open (h : t.phase ≠ .closed) : t.inUse = 1 := if_neg h

theorem Stocked.leases (h : t.Stocked others) (hopen : t.phase ≠ .closed) :
    t.feed.Leases (others + 1) := by
  obtain ⟨pool, hpool, hbalances⟩ := h.pool
  rw [inUse_open hopen] at hbalances
  exact ⟨⟨pool, hpool, hbalances⟩, Nat.pos_of_ne_zero (mt h.capacity.mp hopen)⟩

theorem stocked_of_leases (hopen : t.phase ≠ .closed) (h : t.feed.Leases (others + 1)) :
    t.Stocked others := by
  constructor
  · rw [inUse_open hopen]
    exact h.pool
  · simp [h.held.ne', hopen]

theorem feed_call_closed (c : Call) (h : t.phase = .closed) : (t.call c).2.feed = t.feed := by
  obtain ⟨r, hrun⟩ := run_program_closed t.options.settings c h
  rw [call_eq]
  simp only [run, hrun]
  rfl

theorem feed_after_closed (op : Operation) (h : t.phase = .closed) :
    (t.after op).feed.pool = t.feed.pool ∧ (t.after op).feed.window = t.feed.window := by
  cases op with
  | call c =>
      have hfeed : (t.after (.call c)).feed = t.feed := feed_call_closed c h
      rw [hfeed]
      exact ⟨rfl, rfl⟩
  | heed | cancel | uncancel => exact ⟨rfl, rfl⟩
  | close =>
      have hclose : t.after .close = t := if_pos h
      rw [hclose]
      exact ⟨rfl, rfl⟩

theorem Stocked.close (h : t.Stocked others) (hopen : t.phase ≠ .closed) : t.close.Stocked others := by
  obtain ⟨⟨pool, hpool, hbalances⟩, hcapacity⟩ := (h.leases hopen).release
  have hclosed : t.close.phase = .closed := t.phase_close
  have hfeed : t.close.feed.pool = t.feed.release.pool ∧
      t.close.feed.window = t.feed.release.window := by
    unfold Tokenizer.close
    rw [if_neg hopen]
    dsimp only
    split <;> exact ⟨rfl, rfl⟩
  constructor
  · rw [inUse_closed hclosed, hfeed.1]
    exact ⟨pool, hpool, hbalances⟩
  · simp [hfeed.2, hcapacity, hclosed]

/-- An operation leaves the blocks of the others alone. -/
theorem Stocked.after (h : t.Stocked others) (op : Operation) : (t.after op).Stocked others := by
  by_cases hphase : t.phase = .closed
  · obtain ⟨hpool, hwindow⟩ := feed_after_closed op hphase
    have hclosed := (after_closed op hphase).1
    constructor
    · rw [inUse_closed hclosed, hpool, ← inUse_closed hphase]
      exact h.pool
    · rw [hwindow, h.capacity]
      simp [hphase, hclosed]
  · have hleases := h.leases hphase
    cases op with
    | call c =>
        refine stocked_of_leases (call_phase_ne_closed c hphase) ?_
        change (t.call c).2.feed.Leases _
        rw [call_eq]
        exact hleases.run _
    | heed | cancel | uncancel =>
        exact stocked_of_leases hphase ⟨hleases.pool, hleases.held⟩
    | close => exact h.close hphase

/-- Where a tokenizer is dropped, its block goes back. -/
theorem Stocked.finish (h : t.Stocked others) :
    ∃ pool, t.finish.2 = some pool ∧ pool.Balances others := by
  by_cases hphase : t.phase = .closed
  · obtain ⟨pool, hpool, hbalances⟩ := h.pool
    rw [inUse_closed hphase] at hbalances
    have hempty : t.feed.window.data.isEmpty = true := beq_iff_eq.mpr (h.capacity.mpr hphase)
    exact ⟨pool, by simp [Tokenizer.finish, Feed.release, hempty, hpool], hbalances⟩
  · exact (h.leases hphase).release.1

theorem stocked_ofSource {pool : Pool} (h : pool.Balances others) (options : Options)
    (source : Source) (heeds : Bool) :
    (ofSource { options with pooled := true } source pool heeds).Stocked others :=
  stocked_of_leases Phase.noConfusion (Feed.leases_start h source _ heeds)

end Tokenizer

/-! ## All tokenizers of a pool -/

/-- Tokenizers over one pool. The place of a tokenizer that was dropped is empty. -/
structure Sharing where
  pool : Pool := {}
  places : List (Option Tokenizer) := []

namespace Sharing

/-- What can be done next: another tokenizer is made, or the one at some place is used or dropped. -/
inductive Step where
  | make (options : Options) (source : Source) (heeds : Bool)
  | use (place : Nat) (op : Operation)
  | drop (place : Nat)

/-- The tokenizer at a place, with the pool as it is now. -/
def tokenizer? (s : Sharing) (place : Nat) : Option Tokenizer :=
  s.places[place]?.join.map (Tokenizer.supply s.pool)

/-- What is left after a step. Nothing happens at an empty place. -/
def after (s : Sharing) : Step → Sharing
  | .make options source heeds =>
    let t := Tokenizer.ofSource { options with pooled := true } source s.pool heeds
    { pool := t.feed.pool.getD s.pool, places := s.places ++ [some t] }
  | .use place op =>
    match s.tokenizer? place with
    | some t =>
      let t := t.after op
      { pool := t.feed.pool.getD s.pool, places := s.places.set place (some t) }
    | none => s
  | .drop place =>
    match s.tokenizer? place with
    | some t => { pool := t.finish.2.getD s.pool, places := s.places.set place none }
    | none => s

/-- What is left after several steps. -/
def afterAll (s : Sharing) (steps : List Step) : Sharing := steps.foldl after s

/-- A place with a tokenizer that is open. -/
def isOpen (place : Option Tokenizer) : Bool := place.any fun t => t.phase ≠ .closed

/-- The number of tokenizers that were neither closed nor dropped. -/
def openCount (s : Sharing) : Nat := s.places.countP isOpen

/-- Each tokenizer has a block exactly while it is open, and the pool knows of them all. -/
structure Settled (s : Sharing) : Prop where
  balances : s.pool.Balances s.openCount
  capacity : ∀ t, some t ∈ s.places → (t.feed.window.capacity = 0 ↔ t.phase = .closed)

variable {s : Sharing} {place : Nat} {t : Tokenizer}

theorem inUse_eq (t : Tokenizer) : t.inUse = if isOpen (some t) then 1 else 0 := by
  by_cases h : t.phase = .closed <;> simp [Tokenizer.inUse, isOpen, h]

theorem place_of_tokenizer? (h : s.tokenizer? place = some t) :
    ∃ hlt : place < s.places.length, ∃ t₀, s.places[place] = some t₀ ∧ t = t₀.supply s.pool := by
  obtain ⟨t₀, hjoin, rfl⟩ := Option.map_eq_some_iff.mp h
  obtain ⟨hlt, hplace⟩ := List.getElem?_eq_some_iff.mp (Option.join_eq_some_iff.mp hjoin)
  exact ⟨hlt, t₀, hplace, rfl⟩

/-- The other tokenizers have all blocks in use but one, if this one is open. -/
theorem Settled.stocked (h : s.Settled) (ht : s.tokenizer? place = some t) :
    ∃ others, s.openCount = others + t.inUse ∧ t.Stocked others ∧
      ∀ p, (s.places.set place p).countP isOpen = others + if isOpen p then 1 else 0 := by
  obtain ⟨hlt, t₀, hplace, rfl⟩ := place_of_tokenizer? ht
  have hle := List.boole_getElem_le_countP (p := isOpen) hlt
  have hcount : s.openCount = s.openCount - t₀.inUse + t₀.inUse := by
    rw [inUse_eq, ← hplace]
    exact (Nat.sub_add_cancel hle).symm
  refine ⟨s.openCount - t₀.inUse, hcount, ⟨⟨s.pool, rfl, ?_⟩, ?_⟩, fun p => ?_⟩
  · exact hcount ▸ h.balances
  · exact h.capacity t₀ (hplace ▸ List.getElem_mem hlt)
  · rw [List.countP_set hlt, hplace, ← inUse_eq]
    rfl

theorem Settled.after (h : s.Settled) (step : Step) : (s.after step).Settled := by
  -- What is done at one place leaves the others as they are.
  have hset : ∀ {p : Option Tokenizer},
      (∀ t, p = some t → (t.feed.window.capacity = 0 ↔ t.phase = .closed)) →
      ∀ place t, some t ∈ s.places.set place p →
        (t.feed.window.capacity = 0 ↔ t.phase = .closed) := by
    intro p hp place t hmem
    rcases List.mem_or_eq_of_mem_set hmem with hmem | heq
    · exact h.capacity t hmem
    · exact hp t heq.symm
  cases step with
  | make options source heeds =>
      have hstocked := Tokenizer.stocked_ofSource h.balances options source heeds
      obtain ⟨pool, hpool, hbalances⟩ := hstocked.pool
      refine ⟨?_, fun t hmem => ?_⟩
      · simp only [Sharing.after, hpool, Option.getD_some, openCount, List.countP_append,
          List.countP_singleton]
        rwa [← inUse_eq]
      · rcases List.mem_append.mp hmem with hmem | hmem
        · exact h.capacity t hmem
        · simp only [List.mem_singleton, Option.some.injEq] at hmem
          exact hmem ▸ hstocked.capacity
  | use place op =>
      simp only [Sharing.after]
      cases ht : s.tokenizer? place with
      | none => exact h
      | some t =>
          obtain ⟨others, -, hstocked, hcount⟩ := h.stocked ht
          obtain ⟨pool, hpool, hbalances⟩ := (hstocked.after op).pool
          refine ⟨?_, hset ?_ place⟩
          · simp only [hpool, Option.getD_some, openCount, hcount]
            rwa [← inUse_eq]
          · rintro _ ⟨⟩
            exact (hstocked.after op).capacity
  | drop place =>
      simp only [Sharing.after]
      cases ht : s.tokenizer? place with
      | none => exact h
      | some t =>
          obtain ⟨others, -, hstocked, hcount⟩ := h.stocked ht
          obtain ⟨pool, hpool, hbalances⟩ := hstocked.finish
          refine ⟨?_, hset ?_ place⟩
          · simp only [hpool, Option.getD_some, openCount, hcount]
            exact hbalances
          · intro t hnone
            cases hnone

theorem Settled.afterAll (h : s.Settled) (steps : List Step) : (s.afterAll steps).Settled := by
  induction steps generalizing s with
  | nil => exact h
  | cons step steps ih => exact ih (h.after step)

theorem settled_fresh : ({} : Sharing).Settled := ⟨Pool.balances_fresh, by simp⟩

theorem openCount_eq_zero (h : ∀ t, some t ∈ s.places → t.phase = .closed) : s.openCount = 0 := by
  refine List.countP_eq_zero.mpr fun p hp => ?_
  cases p with
  | none => simp [isOpen]
  | some t => simp [isOpen, h t hp]

/-- However tokenizers over a fresh pool are made, used, closed and dropped, the blocks that the pool
allocated are the free ones and one for each open tokenizer, and it never allocated without being
asked. When no tokenizer is open any more, all blocks are free. What a pool lends is large enough,
holds zeros only, and is no free block any more. -/
theorem blocks_conserved (steps : List Step) :
    let s := ({} : Sharing).afterAll steps
    s.pool.allocations = s.pool.available + s.openCount ∧
      s.pool.allocations ≤ s.pool.rents ∧
      ((∀ t, some t ∈ s.places → t.phase = .closed) → s.pool.available = s.pool.allocations) ∧
      ∀ (pool : Pool) (size : Nat), pool.Lends size (pool.rent size).1 (pool.rent size).2 := by
  intro s
  have hbalances := (settled_fresh.afterAll steps).balances
  refine ⟨hbalances.allocations_eq, hbalances.allocations_le, fun hclosed => ?_, Pool.lends_rent⟩
  have hcount := openCount_eq_zero hclosed
  have heq := hbalances.allocations_eq
  rw [hcount] at heq
  exact heq.symm

/-- Two tokenizers over the texts `[1]` and `"ab"`, with windows of one byte that grow. The first one
is closed twice and dropped after that, the second one is dropped while it is open. -/
theorem blocks_conserved_twice_closed :
    let steps : List Step := [
      .make { initialCapacity := 1 } (Source.ofBytes ⟨#[0x5B, 0x31, 0x5D]⟩) false,
      .use 0 (.call .read), .use 0 (.call .read),
      .make { initialCapacity := 1 } (Source.ofBytes ⟨#[0x22, 0x61, 0x62, 0x22]⟩) false,
      .use 1 (.call (.readAs .int32)), .use 0 .close, .use 0 .close, .drop 0, .drop 1]
    let s := ({} : Sharing).afterAll steps
    s.pool.rents = 6 ∧ s.pool.allocations = 4 ∧ s.pool.available = 4 := by
  intro steps s
  have hclosed : ∀ t, some t ∈ s.places → t.phase = .closed := by
    have hplaces : s.places.all Option.isNone = true := by decide +kernel
    intro t ht
    cases List.all_eq_true.mp hplaces _ ht
  have hallocations : s.pool.allocations = 4 := by decide +kernel
  have hfree := (blocks_conserved steps).2.2.1 hclosed
  exact ⟨by decide +kernel, hallocations, hfree.trans hallocations⟩

end Sharing

end JsonPull
