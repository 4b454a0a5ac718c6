import Mathlib
import JsonPull.Lines

/-! # Counting line breaks

A return, a feed, and a return with a feed directly behind it are one line break each. What is
counted on the way through a stream is what a look at the whole prefix counts, as long as no
prefix ends between the return and the feed of one break. -/

namespace JsonPull

/-- A byte that ends a line. -/
def isBreak (b : UInt8) : Bool := b == 0x0D || b == 0x0A

/-- The number of line breaks in a text. -/
def lineBreaks : List UInt8 → Nat
  | [] => 0
  | 0x0D :: 0x0A :: rest => lineBreaks rest + 1
  | b :: rest => if isBreak b then lineBreaks rest + 1 else lineBreaks rest

/-- The number of bytes behind the last line break of a text. -/
def lastLine (bytes : List UInt8) : Nat :=
  (bytes.reverse.takeWhile fun b => !isBreak b).length

/-- The end of `bytes` lies between the return and the feed of one line break. -/
def SplitsBreak (bytes rest : List UInt8) : Prop :=
  bytes.getLast? = some 0x0D ∧ rest.head? = some 0x0A

theorem SplitsBreak.cons {bytes rest : List UInt8} (h : SplitsBreak bytes rest) (b : UInt8) :
    SplitsBreak (b :: bytes) rest :=
  ⟨by simp [List.getLast?_cons, h.1], h.2⟩

theorem lineBreaks_append {bytes rest : List UInt8} (h : ¬ SplitsBreak bytes rest) :
    lineBreaks (bytes ++ rest) = lineBreaks bytes + lineBreaks rest := by
  induction bytes using lineBreaks.induct with
  | case1 => simp [lineBreaks]
  | case2 bytes ih =>
      have hbytes : ¬ SplitsBreak bytes rest := fun hs => h ((hs.cons _).cons _)
      simp only [List.cons_append, lineBreaks, ih hbytes]
      omega
  | case3 b bytes hpair hbreak ih | case4 b bytes hpair hbreak ih =>
      have hbytes : ¬ SplitsBreak bytes rest := fun hs => h (hs.cons _)
      -- The first byte does not pair with what was appended either.
      have hjoined : ∀ more, b = 0x0D → bytes ++ rest = 0x0A :: more → False := by
        intro more hb heq
        cases bytes with
        | nil => exact h ⟨by simp [hb], by simp [show rest = 0x0A :: more from heq]⟩
        | cons c bytes =>
            obtain ⟨rfl, -⟩ := List.cons.inj heq
            exact hpair bytes hb rfl
      rw [List.cons_append, lineBreaks.eq_3 b (bytes ++ rest) hjoined, lineBreaks.eq_3 b bytes hpair,
        ih hbytes]
      split <;> omega

theorem lineBreaks_clear {bytes : List UInt8} (h : ∀ b ∈ bytes, isBreak b = false) :
    lineBreaks bytes = 0 := by
  induction bytes using lineBreaks.induct with
  | case1 => rfl
  | case2 bytes ih => cases h 0x0D (List.mem_cons_self ..)
  | case3 b bytes hpair hbreak ih => simp [h b (List.mem_cons_self ..)] at hbreak
  | case4 b bytes hpair hbreak ih =>
      rw [lineBreaks.eq_3 b bytes hpair, if_neg hbreak]
      exact ih fun c hc => h c (List.mem_cons_of_mem _ hc)

theorem lineBreaks_clear_append {bytes : List UInt8} (h : ∀ b ∈ bytes, isBreak b = false)
    (rest : List UInt8) : lineBreaks (bytes ++ rest) = lineBreaks rest := by
  rw [lineBreaks_append, lineBreaks_clear h, Nat.zero_add]
  rintro ⟨hlast, -⟩
  cases h 0x0D (List.mem_of_getLast? hlast)

theorem lastLine_append_clear (bytes : List UInt8) {rest : List UInt8}
    (h : ∀ b ∈ rest, isBreak b = false) : lastLine (bytes ++ rest) = lastLine bytes + rest.length := by
  unfold lastLine
  rw [List.reverse_append, List.takeWhile_append_of_pos, List.length_append, List.length_reverse,
    Nat.add_comm]
  intro b hb
  simp [h b (List.mem_reverse.mp hb)]

theorem lastLine_append_break (bytes : List UInt8) {b : UInt8} (h : isBreak b = true) :
    lastLine (bytes ++ [b]) = 0 := by
  simp [lastLine, h]

/-! ## Counting on the way -/

/-- The next `count` bytes of a stream are there and none of them ends a line. -/
def Clear (stream : List UInt8) (pos count : Nat) : Prop :=
  ∀ i < count, ∃ b, stream[pos + i]? = some b ∧ isBreak b = false

/-- The lines are those of the first `pos` bytes of a stream, and no line break is cut there. -/
structure Counted (stream : List UInt8) (lines : Lines) (pos : Nat) : Prop where
  line : lines.line = 1 + lineBreaks (stream.take pos)
  start : lines.start + lastLine (stream.take pos) = pos
  whole : ¬ SplitsBreak (stream.take pos) (stream.drop pos)

variable {stream : List UInt8} {lines : Lines} {pos count : Nat} {b : UInt8}

theorem clear_one (h : stream[pos]? = some b) (hb : isBreak b = false) : Clear stream pos 1 := by
  intro i hi
  obtain rfl : i = 0 := by omega
  exact ⟨b, h, hb⟩

theorem Clear.next (h : Clear stream pos count) :
    ∃ bytes, stream.take (pos + count) = stream.take pos ++ bytes ∧ bytes.length = count ∧
      ∀ b ∈ bytes, isBreak b = false := by
  refine ⟨(stream.drop pos).take count, List.take_add, ?_, ?_⟩
  · cases count with
    | zero => rfl
    | succ count =>
        obtain ⟨b, hb, -⟩ := h count (Nat.lt_succ_self _)
        have hlt := (List.getElem?_eq_some_iff.mp hb).1
        rw [List.length_take, List.length_drop]
        omega
  · intro b hb
    obtain ⟨i, hi, rfl⟩ := List.getElem_of_mem hb
    have hcount : i < count := by
      rw [List.length_take] at hi
      omega
    obtain ⟨b, hget, hclear⟩ := h i hcount
    rw [List.getElem_take, List.getElem_drop]
    rw [List.getElem?_eq_some_iff] at hget
    obtain ⟨_, rfl⟩ := hget
    exact hclear

theorem counted_zero (stream : List UInt8) : Counted stream {} 0 :=
  ⟨rfl, rfl, by simp [SplitsBreak]⟩

namespace Counted

theorem advance (h : Counted stream lines pos) (hclear : Clear stream pos count) :
    Counted stream lines (pos + count) := by
  obtain ⟨bytes, htake, hlength, hbytes⟩ := hclear.next
  have hsplit : ¬ SplitsBreak (stream.take pos) bytes := by
    rintro ⟨hlast, hhead⟩
    have hfeed := hbytes 0x0A (List.mem_of_head? hhead)
    cases hfeed
  refine ⟨?_, ?_, ?_⟩
  · rw [htake, lineBreaks_append hsplit, lineBreaks_clear hbytes, h.line, Nat.add_zero]
  · rw [htake, lastLine_append_clear _ hbytes, hlength, ← Nat.add_assoc, h.start]
  · rintro ⟨hlast, hhead⟩
    cases bytes using List.reverseRecOn with
    | nil =>
        obtain rfl : count = 0 := hlength.symm
        exact h.whole ⟨by simpa [htake] using hlast, hhead⟩
    | append_singleton bytes b _ =>
        rw [htake, ← List.append_assoc, List.getLast?_concat] at hlast
        cases hlast
        cases hbytes 0x0D (by simp)

/-- The bytes of one line break are passed. -/
theorem passed (h : Counted stream lines pos) (bytes : List UInt8) (last : UInt8)
    (htake : stream.take (pos + count) = stream.take pos ++ (bytes ++ [last]))
    (hsplit : ¬ SplitsBreak (stream.take pos) (bytes ++ [last]))
    (hbreaks : lineBreaks (bytes ++ [last]) = 1) (hlast : isBreak last = true)
    (hnext : last = 0x0D → (stream.drop (pos + count)).head? ≠ some 0x0A) :
    Counted stream (lines.next (pos + count)) (pos + count) := by
  refine ⟨?_, ?_, ?_⟩
  · rw [htake, lineBreaks_append hsplit, hbreaks, ← Nat.add_assoc, ← h.line]
    rfl
  · rw [htake, ← List.append_assoc, lastLine_append_break _ hlast]
    rfl
  · rintro ⟨hreturn, hfeed⟩
    rw [htake, ← List.append_assoc, List.getLast?_concat] at hreturn
    exact hnext (Option.some.inj hreturn) hfeed

theorem take_next (h : stream[pos]? = some b) : stream.take (pos + 1) = stream.take pos ++ [b] := by
  rw [List.take_add_one, h, Option.toList_some]

theorem feed (h : Counted stream lines pos) (hb : stream[pos]? = some 0x0A) :
    Counted stream (lines.next (pos + 1)) (pos + 1) := by
  refine h.passed [] 0x0A (take_next hb) ?_ rfl rfl nofun
  rintro ⟨hreturn, -⟩
  exact h.whole ⟨hreturn, by rw [List.head?_drop, hb]⟩

theorem loneReturn (h : Counted stream lines pos) (hb : stream[pos]? = some 0x0D)
    (hnext : stream[pos + 1]? ≠ some 0x0A) : Counted stream (lines.next (pos + 1)) (pos + 1) := by
  refine h.passed [] 0x0D (take_next hb) (by simp [SplitsBreak]) rfl rfl fun _ => ?_
  rwa [List.head?_drop]

theorem pairedReturn (h : Counted stream lines pos) (hb : stream[pos]? = some 0x0D)
    (hnext : stream[pos + 1]? = some 0x0A) : Counted stream (lines.next (pos + 2)) (pos + 2) := by
  refine h.passed [0x0D] 0x0A ?_ (by simp [SplitsBreak]) rfl rfl nofun
  rw [show pos + 2 = pos + 1 + 1 from rfl, take_next hnext, take_next hb, List.append_assoc]

end Counted

end JsonPull
