import JsonPull.Proofs.Stream.Feed

/-! # Blocks of a pool

Every block that a pool allocated is free or lent. A rent takes one of the free blocks or allocates
a new one, and a release puts one back. A feed has exactly one block from when it starts until it is
released, however often it takes a larger one. -/

namespace JsonPull

/-! ## Rents and releases -/

namespace Pool

theorem perm_swapRemove {α : Type} (xs : List α) {i : Nat} (h : i < xs.length) :
    xs.Perm (xs[i] :: swapRemove xs i) := by
  induction xs using List.reverseRecOn with
  | nil => simp at h
  | append_singleton front last _ =>
      simp only [swapRemove, List.getLast?_concat]
      by_cases hi : i < front.length
      · have hset : ((front ++ [last]).set i last).dropLast =
            front.take i ++ last :: front.drop (i + 1) := by
          rw [List.set_append_left _ _ hi, List.dropLast_concat, List.set_eq_take_cons_drop _ hi]
        have hfront : front = front.take i ++ front[i] :: front.drop (i + 1) := by
          rw [List.getElem_cons_drop, List.take_append_drop]
        rw [hset, List.getElem_append_left hi]
        calc (front ++ [last]).Perm (last :: front) := List.perm_append_singleton last front
          _ |>.Perm (last :: front[i] :: (front.take i ++ front.drop (i + 1))) := by
            refine .cons last ?_
            conv_lhs => rw [hfront]
            exact List.perm_middle
          _ |>.Perm (front[i] :: last :: (front.take i ++ front.drop (i + 1))) := .swap ..
          _ |>.Perm (front[i] :: (front.take i ++ last :: front.drop (i + 1))) :=
            .cons _ List.perm_middle.symm
      · have hlast : i = front.length := by
          simp at h
          omega
        subst hlast
        simp

/-- What a rent lends: a block of zeros that is large enough. Either it was one of the free blocks
and is none of them any more, or it is allocated. -/
structure Lends (pool : Pool) (size : Nat) (block : ByteArray) (pool' : Pool) : Prop where
  zeros : ∀ b ∈ block.data.toList, b = 0
  large : size ≤ block.size
  taken : ∃ old? : Option ByteArray, pool.free.Perm (old?.toList ++ pool'.free) ∧
    (∀ old ∈ old?, old.size = block.size) ∧
    pool'.allocations = pool.allocations + if old?.isNone then 1 else 0
  rents : pool'.rents = pool.rents + 1

theorem mem_zeroBlock {size : Nat} {b : UInt8} (h : b ∈ (zeroBlock size).data.toList) : b = 0 := by
  simp [zeroBlock] at h
  exact h.2

theorem lends_rent (pool : Pool) (size : Nat) :
    pool.Lends size (pool.rent size).1 (pool.rent size).2 := by
  have hlarge := pool.le_size_rent size
  unfold rent at hlarge ⊢
  dsimp only at hlarge ⊢
  split
  · rename_i i h
    rw [h] at hlarge
    obtain ⟨hi, -, -⟩ := List.findIdx?_eq_some_iff_getElem.mp h
    refine ⟨fun b => mem_zeroBlock, hlarge, ⟨some pool.free[i], ?_, ?_, rfl⟩, rfl⟩
    · exact perm_swapRemove pool.free hi
    · rintro _ ⟨⟩
      rw [size_zeroBlock, List.getElem?_eq_getElem hi]
      rfl
  · refine ⟨fun b => mem_zeroBlock, (size_zeroBlock size).ge, ⟨none, ?_, nofun, rfl⟩, rfl⟩
    exact List.Perm.refl _

/-- Of the blocks that a pool allocated, so many are lent and the others are free. -/
structure Balances (pool : Pool) (lent : Nat) : Prop where
  allocations_eq : pool.allocations = pool.available + lent
  allocations_le : pool.allocations ≤ pool.rents

variable {pool pool' : Pool} {size lent : Nat} {block : ByteArray}

theorem Balances.lends (h : pool.Balances lent) (hlends : pool.Lends size block pool') :
    pool'.Balances (lent + 1) := by
  obtain ⟨old?, hperm, -, hallocations⟩ := hlends.taken
  have hlength := hperm.length_eq
  have hrents := hlends.rents
  have heq := h.allocations_eq
  have hle := h.allocations_le
  unfold available at heq
  constructor
  · unfold available
    cases old? with
    | none =>
        simp at hlength hallocations
        omega
    | some old =>
        simp at hlength hallocations
        omega
  · cases old? with
    | none =>
        simp at hallocations
        omega
    | some old =>
        simp at hallocations
        omega

theorem Balances.release (h : pool.Balances (lent + 1)) (block : ByteArray) :
    (pool.release block).Balances lent := by
  have heq := h.allocations_eq
  unfold available at heq
  refine ⟨?_, h.allocations_le⟩
  simp [Pool.release, available]
  omega

theorem balances_fresh : ({} : Pool).Balances 0 := ⟨rfl, le_rfl⟩

end Pool

/-! ## The block of a window -/

namespace Window

variable {w : Window}

theorem size_copySlice_le (src dest : ByteArray) (start : Nat) :
    dest.size ≤ (src.copySlice 0 dest start src.size).size := by
  rw [← length_toList, ← length_toList, toList_splice]
  simp only [List.length_append, List.length_take, List.length_drop, length_toList]
  omega

theorem capacity_commit_le (w : Window) (bytes : ByteArray) :
    w.capacity ≤ (w.commit bytes).capacity :=
  size_copySlice_le bytes w.data w.used

theorem capacity_compact_le (w : Window) : w.capacity ≤ w.compact.capacity :=
  size_copySlice_le (w.data.extract w.pos w.used) w.data 0

theorem capacity_settle_le (w : Window) : w.capacity ≤ w.settle.capacity := by
  unfold settle
  split
  · exact w.capacity_compact_le
  · exact le_rfl

theorem capacity_moveInto_pos (w : Window) {block : ByteArray} {start : Nat}
    (h : w.used - start < block.size) : 0 < (w.moveInto block start).capacity := by
  simp [moveInto, capacity, ByteArray.size_append, ByteArray.size_extract]
  omega

end Window

/-! ## The block of a feed -/

namespace Feed

/-- A feed that has one block of a pool, of which `lent` are in use. -/
structure Leases (feed : Feed) (lent : Nat) : Prop where
  pool : ∃ pool, feed.pool = some pool ∧ pool.Balances lent
  held : 0 < feed.window.capacity

variable {feed : Feed} {lent : Nat}

/-- A larger block is rented before the old one goes back. -/
theorem Leases.makeRoom (h : feed.Leases lent) (required : Nat) (retain : Retain) :
    (feed.makeRoom required retain).Leases lent := by
  refine ⟨?_, ?_⟩
  · obtain ⟨pool, hpool, hbalances⟩ := h.pool
    unfold Feed.makeRoom
    split
    · exact h.pool
    · exact h.pool
    · rename_i capacity start _
      have hrent := hbalances.lends (pool.lends_rent capacity)
      refine ⟨_, ?_, hrent.release feed.window.data⟩
      simp [rent, hpool]
  · have hheld := h.held
    have hroomier := roomier_makeRoom feed required retain
    generalize (feed.makeRoom required retain).window = w at hroomier ⊢
    cases hroomier with
    | enough => exact hheld
    | compacted => exact hheld.trans_le feed.window.capacity_compact_le
    | moved block hblock =>
        refine feed.window.capacity_moveInto_pos ?_
        unfold Window.unreadCount at hblock
        omega
    | grown block hblock => exact feed.window.capacity_moveInto_pos (by omega)

theorem Leases.fetch (h : feed.Leases lent) (required : Nat) (retain : Retain) :
    (feed.fetch required retain).2.Leases lent := by
  have hroomy := h.makeRoom required retain
  unfold Feed.fetch
  split
  · exact h
  split
  · exact h
  dsimp only
  split
  · exact ⟨hroomy.pool, hroomy.held.trans_le (Window.capacity_commit_le _ _)⟩
  · exact ⟨hroomy.pool, hroomy.held⟩

theorem Leases.ensure (h : feed.Leases lent) (ahead : Nat) (retain : Retain) (missing : Nat) :
    (feed.ensure ahead retain missing).2.Leases lent := by
  induction missing generalizing feed with
  | zero => exact h
  | succ missing ih =>
      unfold Feed.ensure
      split
      · exact h
      have hfetch := h.fetch (feed.window.pos + ahead + 1 - feed.window.used) retain
      split
      · rename_i heq
        rwa [heq] at hfetch
      · rename_i heq
        rwa [heq] at hfetch
      · rename_i heq
        rw [heq] at hfetch
        exact ih hfetch

/-- No question takes a block from the pool for good, or gives one back that is in use. -/
theorem Leases.answer (h : feed.Leases lent) (q : Query) : (feed.answer q).2.Leases lent := by
  cases q with
  | byte ahead retain =>
      change (feed.byte? ahead retain).2.Leases lent
      rw [snd_byte?]
      exact h.ensure ahead retain _
  | advance count => exact ⟨h.pool, h.held⟩
  | settle => exact ⟨h.pool, h.held.trans_le feed.window.capacity_settle_le⟩
  | cursor | past | behind | hold | slice | resolve | budget => exact h

theorem Leases.run {α : Type} (h : feed.Leases lent) (scan : Scan α) :
    (feed.run scan).2.Leases lent :=
  scan.runWith_invariant (Leases · lent) Feed.answer (fun q _ h => h.answer q) h

theorem leases_start {pool : Pool} (h : pool.Balances lent) (source : Source) (capacity : Nat)
    (heeds : Bool) : (start source capacity (some pool) heeds).Leases (lent + 1) := by
  have hlends := pool.lends_rent (max capacity 1)
  refine ⟨⟨_, rfl, h.lends hlends⟩, ?_⟩
  exact (Nat.le_max_right capacity 1).trans hlends.large

theorem Leases.release (h : feed.Leases (lent + 1)) :
    (∃ pool, feed.release.pool = some pool ∧ pool.Balances lent) ∧
      feed.release.window.capacity = 0 := by
  refine ⟨?_, rfl⟩
  obtain ⟨pool, hpool, hbalances⟩ := h.pool
  have hheld : feed.window.data.isEmpty = false := by
    have hcapacity := h.held
    unfold Window.capacity at hcapacity
    simp [ByteArray.isEmpty, hcapacity.ne']
  refine ⟨_, ?_, hbalances.release feed.window.data⟩
  simp [Feed.release, hheld, hpool]

end Feed

end JsonPull
