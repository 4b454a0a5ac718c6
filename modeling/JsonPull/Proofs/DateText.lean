import Mathlib
import JsonPull.DateText
import JsonPull.Proofs.Checked

/-! # Dates are read within bounds

A checked reading of dates takes every byte by its place and computes with words of 32 bits. It
never stops, and finds the date that the plain reading finds. -/

namespace JsonPull.DateText

open Number Calendar

/-- A checked program that may find nothing. -/
abbrev Finding := OptionT Checked

namespace Finding

variable {α β : Type}

/-- The program does not stop, and finds `found`. -/
def Finds (x : Finding α) (found : Option α) : Prop := x.run = .ok found

theorem finds_pure (a : α) : (pure a : Finding α).Finds (some a) := rfl

theorem finds_failure : (failure : Finding α).Finds none := rfl

theorem Finds.bind {x : Finding α} {found : Option α} {f : α → Finding β} {g : α → Option β}
    (hx : x.Finds found) (hf : ∀ a, found = some a → (f a).Finds (g a)) :
    (x >>= f).Finds (found >>= g) := by
  unfold Finds at hx ⊢
  rw [OptionT.run_bind, hx]
  cases found with
  | none => rfl
  | some a => exact hf a rfl

/-- A first part that surely finds something. -/
theorem Finds.next {x : Finding α} {a : α} {f : α → Finding β} {found : Option β}
    (hx : x.Finds (some a)) (hf : (f a).Finds found) : (x >>= f).Finds found :=
  hx.bind (g := fun _ => found) fun _ h => Option.some.inj h ▸ hf

theorem Finds.map {x : Finding α} {found : Option α} (hx : x.Finds found) (f : α → β) :
    (f <$> x).Finds (found.map f) := by
  rw [← bind_pure_comp, Option.map_eq_bind]
  exact hx.bind fun a _ => finds_pure (f a)

theorem finds_check {p : Prop} [Decidable p] (h : p) (trap : Trap) :
    (liftM (check p trap) : Finding Unit).Finds (some ()) := by
  rw [check_of h]
  rfl

theorem finds_ite {p : Prop} [Decidable p] {x y : Finding α} {found found' : Option α}
    (hx : x.Finds found) (hy : y.Finds found') :
    (if p then x else y).Finds (if p then found else found') := by
  split
  · exact hx
  · exact hy

end Finding

open Finding

/-! ## Bytes by their places -/

/-- The bytes from `first` to `last`. -/
def cut (bytes : List UInt8) (first last : Nat) : Finding (List UInt8) := do
  check (first ≤ last ∧ last ≤ bytes.length) .index
  return (bytes.drop first).take (last - first)

/-- Whether a mark stands at a place. -/
def hasMark (bytes : List UInt8) (place : Nat) (mark : UInt8) : Finding Bool := do
  check (place < bytes.length) .index
  return bytes[place]? == some mark

/-- Whether every mark stands at its place. -/
def hasMarks (bytes : List UInt8) (marks : List (Nat × UInt8)) : Finding Bool :=
  marks.allM fun (place, mark) => hasMark bytes place mark

theorem finds_cut {bytes : List UInt8} {first last : Nat} (hle : first ≤ last)
    (hlast : last ≤ bytes.length) :
    (cut bytes first last).Finds (some ((bytes.drop first).take (last - first))) :=
  (finds_check ⟨hle, hlast⟩ _).next (finds_pure _)

theorem finds_drop {bytes : List UInt8} {first : Nat} (h : first ≤ bytes.length) :
    (cut bytes first bytes.length).Finds (some (bytes.drop first)) := by
  have hcut := finds_cut h le_rfl
  rwa [List.take_of_length_le (by rw [List.length_drop])] at hcut

theorem finds_field {bytes : List UInt8} {start count : Nat} (h : start + count ≤ bytes.length) :
    (cut bytes start (start + count)).Finds (some (field bytes start count)) := by
  have hcut := finds_cut (Nat.le_add_right start count) h
  rwa [Nat.add_sub_cancel_left] at hcut

theorem finds_hasMark {bytes : List UInt8} {place : Nat} (h : place < bytes.length) (mark : UInt8) :
    (hasMark bytes place mark).Finds (some (bytes[place]? == some mark)) :=
  (finds_check h _).next (finds_pure _)

/-! ## Numbers of 32 bits -/

/-- A number that must fit a word. -/
def word (n : Nat) : Finding Nat := do
  check (n < 2 ^ 32) .overflow
  return n

/-- A number with one more digit. -/
def pushDigit (n : Nat) (b : UInt8) : Finding Nat := do
  let tens ← word (n * 10)
  check (0x30 ≤ b) .overflow
  word (tens + (b.toNat - 0x30))

/-- The number written by one or more decimal digits. -/
def digits (bytes : List UInt8) : Finding Nat :=
  if bytes.isEmpty || !bytes.all isDigit then failure else bytes.foldlM pushDigit 0

theorem finds_word {n : Nat} (h : n < 2 ^ 32) : (word n).Finds (some n) :=
  (finds_check h _).next (finds_pure _)

theorem finds_pushDigit {n count : Nat} {b : UInt8} (hn : n < 10 ^ count) (hcount : count < 9)
    (hb : isDigit b = true) :
    (pushDigit n b).Finds (some (10 * n + (b.toNat - 0x30))) ∧
      10 * n + (b.toNat - 0x30) < 10 ^ (count + 1) := by
  obtain ⟨hlow, hhigh⟩ : 0x30 ≤ b ∧ b ≤ 0x39 := by simpa [isDigit] using hb
  have hvalue : b.toNat ≤ 0x39 := hhigh
  have hpow : 10 ^ (count + 1) = 10 * 10 ^ count := Nat.pow_succ'
  have hmax : 10 ^ (count + 1) ≤ 10 ^ 9 := Nat.pow_le_pow_right (by omega) (by omega)
  refine ⟨?_, by omega⟩
  refine (finds_word (by omega)).next ((finds_check hlow _).next ?_)
  rw [Nat.mul_comm n 10]
  exact finds_word (by omega)

theorem finds_foldlM_pushDigit {bytes : List UInt8} {n count : Nat} (hn : n < 10 ^ count)
    (hcount : count + bytes.length ≤ 9) (hbytes : ∀ b ∈ bytes, isDigit b = true) :
    (bytes.foldlM pushDigit n).Finds
        (some (bytes.foldl (fun n b => 10 * n + (b.toNat - 0x30)) n)) ∧
      bytes.foldl (fun n b => 10 * n + (b.toNat - 0x30)) n < 10 ^ (count + bytes.length) := by
  induction bytes generalizing n count with
  | nil => exact ⟨finds_pure n, hn⟩
  | cons b bytes ih =>
      rw [List.length_cons] at hcount
      obtain ⟨hpush, hlt⟩ := finds_pushDigit hn (by omega) (hbytes b (List.mem_cons_self ..))
      obtain ⟨hfold, hbound⟩ := ih hlt (by omega) fun b hb => hbytes b (List.mem_cons_of_mem _ hb)
      rw [List.foldlM_cons, List.foldl_cons, List.length_cons,
        show count + (bytes.length + 1) = count + 1 + bytes.length by omega]
      exact ⟨hpush.next hfold, hbound⟩

theorem ofDecimalDigits_lt {bytes : List UInt8} (hlength : bytes.length ≤ 9)
    (hbytes : ∀ b ∈ bytes, isDigit b = true) : ofDecimalDigits bytes < 10 ^ bytes.length := by
  rw [ofDecimalDigits_eq_foldl]
  have hzero : 0 < 10 ^ 0 := by decide
  have h := (finds_foldlM_pushDigit hzero (by omega) hbytes).2
  rwa [Nat.zero_add] at h

/-- Up to nine digits are a number of 32 bits. -/
theorem finds_digits {bytes : List UInt8} (h : bytes.length ≤ 9) :
    (digits bytes).Finds (number? bytes) := by
  unfold digits number?
  split
  · exact finds_failure
  · rename_i hdigits
    have hbytes : ∀ b ∈ bytes, isDigit b = true := by
      simp only [Bool.or_eq_true, Bool.not_eq_true', not_or, Bool.not_eq_false,
        List.all_eq_true] at hdigits
      exact hdigits.2
    rw [ofDecimalDigits_eq_foldl]
    have hzero : 0 < 10 ^ 0 := by decide
    exact (finds_foldlM_pushDigit hzero (by omega) hbytes).1

theorem number?_lt {bytes : List UInt8} {n : Nat} (hlength : bytes.length ≤ 9)
    (h : number? bytes = some n) : n < 10 ^ bytes.length := by
  unfold number? at h
  split at h
  · cases h
  · rename_i hdigits
    simp only [Bool.or_eq_true, Bool.not_eq_true', not_or, Bool.not_eq_false,
      List.all_eq_true] at hdigits
    cases h
    exact ofDecimalDigits_lt hlength hdigits.2

/-! ## Fractions and zones -/

/-- The nanoseconds of a fraction after a point, and what follows it. -/
def findFraction : List UInt8 → Finding (Nat × List UInt8)
  | 0x2E :: tail => do
    let count := (tail.takeWhile isDigit).length
    if count = 0 ∨ 9 < count then failure
    else
      let shown ← digits (← cut tail 0 count)
      check (count ≤ 9) .overflow
      let scale ← word (10 ^ (9 - count))
      let nanos ← word (shown * scale)
      return (nanos, ← cut tail count tail.length)
  | rest => return (0, rest)

/-- The offset of a sign, hours and minutes. -/
def findOffset (sign : UInt8) (hours minutes : List UInt8) : Finding Int := do
  let h ← digits hours
  let m ← digits minutes
  let hourSeconds ← word (h * 3600)
  let minuteSeconds ← word (m * 60)
  let seconds ← word (hourSeconds + minuteSeconds)
  let east : Int := if sign == 0x2D then -(seconds : Int) else seconds
  if east.natAbs < 86400 then return east else failure

/-- The zone at the end of a time. -/
def findZone : List UInt8 → Finding Zone
  | [] => return .none
  | [0x5A] => return .utc
  | [s, h, h'] => if isSign s then .offset <$> findOffset s [h, h'] [0x30] else failure
  | [s, h, h', m, m'] => if isSign s then .offset <$> findOffset s [h, h'] [m, m'] else failure
  | [s, h, h', c, m, m'] =>
    if isSign s && c == 0x3A then .offset <$> findOffset s [h, h'] [m, m'] else failure
  | _ => failure

theorem takeWhile_eq_take {α : Type} (p : α → Bool) (xs : List α) :
    xs.takeWhile p = xs.take (xs.takeWhile p).length :=
  List.prefix_iff_eq_take.mp (List.takeWhile_prefix p)

theorem dropWhile_eq_drop {α : Type} (p : α → Bool) (xs : List α) :
    xs.dropWhile p = xs.drop (xs.takeWhile p).length := by
  have hdrop : (xs.takeWhile p ++ xs.dropWhile p).drop (xs.takeWhile p).length = xs.dropWhile p :=
    List.drop_left
  rw [List.takeWhile_append_dropWhile] at hdrop
  exact hdrop.symm

theorem length_takeWhile_le {α : Type} (p : α → Bool) (xs : List α) :
    (xs.takeWhile p).length ≤ xs.length :=
  (List.takeWhile_prefix p).length_le

/-- Digits that are cut off by their number. -/
theorem finds_takeWhile (bytes : List UInt8) :
    (cut bytes 0 (bytes.takeWhile isDigit).length).Finds (some (bytes.takeWhile isDigit)) := by
  have hcut := finds_cut (Nat.zero_le _) (length_takeWhile_le isDigit bytes)
  rwa [List.drop_zero, Nat.sub_zero, ← takeWhile_eq_take] at hcut

theorem finds_dropWhile (bytes : List UInt8) :
    (cut bytes (bytes.takeWhile isDigit).length bytes.length).Finds
      (some (bytes.dropWhile isDigit)) := by
  rw [dropWhile_eq_drop]
  exact finds_drop (length_takeWhile_le isDigit bytes)

theorem fraction?_point (tail : List UInt8) : fraction? (0x2E :: tail) =
    if (tail.takeWhile isDigit).isEmpty || 9 < (tail.takeWhile isDigit).length then none
    else some (ofDecimalDigits (tail.takeWhile isDigit) *
      tenPow (9 - (tail.takeWhile isDigit).length), tail.dropWhile isDigit) := rfl

theorem finds_fraction (bytes : List UInt8) : (findFraction bytes).Finds (fraction? bytes) := by
  unfold findFraction
  split
  · rename_i tail
    rw [fraction?_point]
    have hshown := finds_takeWhile tail
    have hrest := finds_dropWhile tail
    generalize hdigits : tail.takeWhile isDigit = shown at hshown hrest ⊢
    have hall : ∀ b ∈ shown, isDigit b = true := by
      rw [← hdigits]
      exact fun b hb => List.mem_takeWhile_imp hb
    dsimp only
    by_cases hcount : shown.length = 0 ∨ 9 < shown.length
    · rw [if_pos hcount, if_pos]
      · exact finds_failure
      · simpa [List.length_eq_zero_iff] using hcount
    · have hnine : shown.length ≤ 9 := by omega
      have hnil : shown.isEmpty = false := by
        rw [List.isEmpty_eq_false_iff, ← List.length_pos_iff]
        omega
      have hnumber : number? shown = some (ofDecimalDigits shown) := by
        have hdigit : shown.all isDigit = true := List.all_eq_true.mpr hall
        rw [number?, hnil, hdigit]
        rfl
      have hlt := ofDecimalDigits_lt hnine hall
      have hscale : (10 : Nat) ^ (9 - shown.length) ≤ 10 ^ 9 :=
        Nat.pow_le_pow_right (by omega) (by omega)
      -- As many digits as were shown and as many zeros as are missing are nine digits.
      have hnanos : ofDecimalDigits shown * 10 ^ (9 - shown.length) < 10 ^ 9 := by
        have hpos : 0 < (10 : Nat) ^ (9 - shown.length) := Nat.pow_pos (by decide)
        have hmul := Nat.mul_lt_mul_of_pos_right hlt hpos
        rwa [← Nat.pow_add, show shown.length + (9 - shown.length) = 9 by omega] at hmul
      rw [if_neg hcount, if_neg (by simpa [hnil] using hnine)]
      refine hshown.next ?_
      refine (hnumber ▸ finds_digits hnine : (digits shown).Finds _).next ?_
      refine (finds_check hnine _).next ?_
      refine (finds_word (by omega)).next ?_
      refine (finds_word (by omega)).next ?_
      exact hrest.next (finds_pure _)
  · rename_i hpoint
    unfold fraction?
    split
    · exact absurd rfl (hpoint _)
    · exact finds_pure _

theorem finds_offset (sign : UInt8) {hours minutes : List UInt8} (hhours : hours.length ≤ 2)
    (hminutes : minutes.length ≤ 2) :
    (findOffset sign hours minutes).Finds (offset? sign hours minutes) := by
  have hpow : ∀ {count}, count ≤ 2 → (10 : Nat) ^ count ≤ 10 ^ 2 :=
    fun h => Nat.pow_le_pow_right (by omega) h
  refine (finds_digits (hhours.trans (by decide))).bind fun h hh => ?_
  refine (finds_digits (hminutes.trans (by decide))).bind fun m hm => ?_
  have hhour := (number?_lt (hhours.trans (by decide)) hh).trans_le (hpow hhours)
  have hminute := (number?_lt (hminutes.trans (by decide)) hm).trans_le (hpow hminutes)
  refine (finds_word (by omega)).next ((finds_word (by omega)).next ((finds_word (by omega)).next ?_))
  exact finds_ite (finds_pure _) finds_failure

theorem finds_zone (bytes : List UInt8) : (findZone bytes).Finds (zone? bytes) := by
  unfold findZone
  split
  · exact finds_pure _
  · exact finds_pure _
  · rw [zone?]
    exact finds_ite ((finds_offset _ le_rfl one_le_two).map _) finds_failure
  · rw [zone?]
    exact finds_ite ((finds_offset _ le_rfl le_rfl).map _) finds_failure
  · rw [zone?]
    exact finds_ite ((finds_offset _ le_rfl le_rfl).map _) finds_failure
  · rename_i h₀ h₁ h₃ h₅ h₆
    have hnone : zone? bytes = none := by
      unfold zone?
      split
      · exact absurd rfl h₀
      · exact absurd rfl h₁
      · exact absurd rfl (h₃ _ _ _)
      · exact absurd rfl (h₅ _ _ _ _ _)
      · exact absurd rfl (h₆ _ _ _ _ _ _)
      · rfl
    rw [hnone]
    exact finds_failure

/-! ## Dates -/

/-- A written date and time with its zone. -/
def findIso (bytes : List UInt8) : Finding (Local × Zone) := do
  if !isIsoLength bytes.length then failure
  else
    let marked ← hasMarks bytes [(4, 0x2D), (7, 0x2D), (10, 0x54), (13, 0x3A), (16, 0x3A)]
    if !marked then failure
    else
      let year ← digits (← cut bytes 0 4)
      let month ← digits (← cut bytes 5 7)
      let day ← digits (← cut bytes 8 10)
      let hour ← digits (← cut bytes 11 13)
      let minute ← digits (← cut bytes 14 16)
      let second ← digits (← cut bytes 17 19)
      let (nanos, rest) ← findFraction (← cut bytes 19 bytes.length)
      let zone ← findZone rest
      let time : Local := { year, month, day, hour, minute, second, nanos }
      if time.isValid then return (time, zone) else failure

/-- A text is only cut behind characters of one byte. -/
def cutText (bytes : List UInt8) (last : Nat) : Finding (List UInt8) := do
  let first ← cut bytes 0 last
  check (first.all (· < 0x80)) .index
  return first

/-- A count of milliseconds with an optional offset. -/
def findMillis (bytes : List UInt8) : Finding (Int × Option Int) := do
  let signed := if bytes.head? = some 0x2D then 1 else 0
  let unsigned ← cut bytes signed bytes.length
  let last := signed + (unsigned.takeWhile isDigit).length
  if last = signed then failure
  else
    let shown ← cutText bytes last
    let count := ofDecimalDigits (shown.drop signed)
    let millis : Int := if signed = 1 then -(count : Int) else count
    let offset ← findMillisOffset (← cut bytes last bytes.length)
    if isMillis millis then return (millis, offset) else failure
where
  /-- The offset after a count of milliseconds, if there is one. -/
  findMillisOffset : List UInt8 → Finding (Option Int)
    | [] => return none
    | [s, h, h', m, m'] => if isSign s then some <$> findOffset s [h, h'] [m, m'] else failure
    | _ => failure

/-- The timestamp that a text writes. -/
def find (keepOffset : Bool) (bytes : List UInt8) : Finding Timestamp :=
  match inner? bytes with
  | some inner => (fun (millis, offset) => ofMillisOffset keepOffset millis offset) <$> findMillis inner
  | none => (fun (time, zone) => ofLocal keepOffset time zone) <$> findIso bytes

theorem finds_hasMarks {bytes : List UInt8} {marks : List (Nat × UInt8)}
    (h : ∀ mark ∈ marks, mark.1 < bytes.length) :
    (hasMarks bytes marks).Finds
      (some (marks.all fun (place, mark) => bytes[place]? == some mark)) := by
  induction marks with
  | nil => exact finds_pure _
  | cons mark marks ih =>
      obtain ⟨place, byte⟩ := mark
      unfold hasMarks
      rw [List.allM_cons, List.all_cons]
      refine (finds_hasMark (h (place, byte) (List.mem_cons_self ..)) byte).next ?_
      dsimp only
      cases bytes[place]? == some byte with
      | false =>
          rw [if_neg Bool.false_ne_true, Bool.false_and]
          exact finds_pure _
      | true =>
          rw [if_pos rfl, Bool.true_and]
          exact ih fun m hm => h m (List.mem_cons_of_mem _ hm)

/-- The number in a field of two or four digits. -/
theorem finds_number {bytes : List UInt8} (start count : Nat) (hcount : count ≤ 9)
    (h : start + count ≤ bytes.length) {α : Type} {f : Nat → Finding α} {g : Nat → Option α}
    (hf : ∀ n, (f n).Finds (g n)) :
    (do f (← digits (← cut bytes start (start + count)))).Finds
      (do g (← number? (field bytes start count))) := by
  refine (finds_field h).next ((finds_digits ?_).bind fun n _ => hf n)
  exact (List.length_take_le _ _).trans hcount

theorem finds_iso (bytes : List UInt8) : (findIso bytes).Finds (iso? bytes) := by
  unfold findIso iso?
  by_cases hlength : isIsoLength bytes.length = true
  swap
  · rw [Bool.not_eq_true] at hlength
    rw [hlength]
    exact finds_failure
  have hle : 19 ≤ bytes.length := by
    simp only [isIsoLength, Bool.and_eq_true, decide_eq_true_eq] at hlength
    exact hlength.1
  rw [hlength]
  refine (finds_hasMarks ?_).next ?_
  · intro mark hmark
    fin_cases hmark <;> exact Nat.lt_of_lt_of_le (by decide) hle
  refine finds_ite finds_failure ?_
  refine finds_number 0 4 (by decide) (by omega) fun year => ?_
  refine finds_number 5 2 (by decide) (by omega) fun month => ?_
  refine finds_number 8 2 (by decide) (by omega) fun day => ?_
  refine finds_number 11 2 (by decide) (by omega) fun hour => ?_
  refine finds_number 14 2 (by decide) (by omega) fun minute => ?_
  refine finds_number 17 2 (by decide) (by omega) fun second => ?_
  refine (finds_drop hle).next ((finds_fraction _).bind fun (nanos, rest) _ => ?_)
  refine (finds_zone rest).bind fun zone _ => ?_
  exact finds_ite (finds_pure _) finds_failure

theorem finds_millisOffset (bytes : List UInt8) :
    (findMillis.findMillisOffset bytes).Finds (millisOffset? bytes) := by
  unfold findMillis.findMillisOffset
  split
  · exact finds_pure _
  · rw [millisOffset?]
    exact finds_ite ((finds_offset _ le_rfl le_rfl).map _) finds_failure
  · rename_i h₀ h₅
    have hnone : millisOffset? bytes = none := by
      unfold millisOffset?
      split
      · exact absurd rfl h₀
      · exact absurd rfl (h₅ _ _ _ _ _)
      · rfl
    rw [hnone]
    exact finds_failure

theorem lt_of_isDigit {b : UInt8} (h : isDigit b = true) : b < 0x80 := by
  have hle : b ≤ 0x39 := (by simpa [isDigit] using h : 0x30 ≤ b ∧ b ≤ 0x39).2
  exact UInt8.lt_of_le_of_lt hle (by decide)

/-- A sign and digits are characters of one byte each. -/
theorem finds_cutText {sign unsigned : List UInt8} (hsign : sign = [] ∨ sign = [0x2D]) :
    (cutText (sign ++ unsigned) (sign.length + (unsigned.takeWhile isDigit).length)).Finds
      (some (sign ++ unsigned.takeWhile isDigit)) := by
  have hle := length_takeWhile_le isDigit unsigned
  have htake : ((sign ++ unsigned).drop 0).take
      (sign.length + (unsigned.takeWhile isDigit).length - 0) =
        sign ++ unsigned.takeWhile isDigit := by
    rw [List.drop_zero, Nat.sub_zero, List.take_length_add_append, ← takeWhile_eq_take]
  refine (finds_cut (Nat.zero_le _) (by rw [List.length_append]; omega)).next ?_
  rw [htake]
  refine (finds_check ?_ _).next (finds_pure _)
  rw [List.all_append, Bool.and_eq_true, List.all_eq_true, List.all_eq_true]
  refine ⟨fun b hb => ?_, fun b hb => decide_eq_true (lt_of_isDigit (List.mem_takeWhile_imp hb))⟩
  obtain rfl | rfl := hsign
  · cases hb
  · rw [List.mem_singleton.mp hb]
    decide

/-- A count of milliseconds behind its sign. -/
theorem finds_signed (sign unsigned : List UInt8) {negative : Bool}
    (hsign : sign = [] ∨ sign = [0x2D]) (hnegative : sign.length = 1 ↔ negative = true)
    (hhead : sign = [] → unsigned.head? ≠ some 0x2D) :
    (findMillis (sign ++ unsigned)).Finds (do
      let count ← number? (unsigned.takeWhile isDigit)
      let millis : Int := if negative then -(count : Int) else count
      let offset ← millisOffset? (unsigned.dropWhile isDigit)
      if isMillis millis then some (millis, offset) else none) := by
  have hlength : (if (sign ++ unsigned).head? = some 0x2D then 1 else 0) = sign.length := by
    obtain rfl | rfl := hsign
    · exact if_neg (hhead rfl)
    · rfl
  have hle := length_takeWhile_le isDigit unsigned
  unfold findMillis
  dsimp only
  simp only [hlength, hnegative]
  refine (finds_drop (by rw [List.length_append]; omega)).next ?_
  rw [List.drop_left]
  by_cases hnone : (unsigned.takeWhile isDigit).length = 0
  · rw [if_pos (by omega), List.length_eq_zero_iff.mp hnone]
    exact finds_failure
  · rw [if_neg (by omega)]
    have hnumber : number? (unsigned.takeWhile isDigit) =
        some (ofDecimalDigits (unsigned.takeWhile isDigit)) := by
      refine if_neg ?_
      rw [Bool.or_eq_true, not_or, List.isEmpty_iff, ← List.length_eq_zero_iff]
      refine ⟨hnone, ?_⟩
      rw [Bool.not_eq_true', Bool.not_eq_false, List.all_eq_true]
      exact fun b hb => List.mem_takeWhile_imp hb
    rw [hnumber]
    refine (finds_cutText hsign).next ?_
    rw [List.drop_left]
    refine (finds_drop (by rw [List.length_append]; omega)).next ?_
    rw [← List.drop_drop, List.drop_left, ← dropWhile_eq_drop]
    exact (finds_millisOffset _).bind fun offset _ => finds_ite (finds_pure _) finds_failure

theorem finds_millis (bytes : List UInt8) : (findMillis bytes).Finds (millis? bytes) := by
  unfold millis?
  split
  rename_i negative unsigned hsigned
  split at hsigned
  · cases hsigned
    exact finds_signed [0x2D] unsigned (.inr rfl) (by decide) fun h => absurd h (List.cons_ne_nil _ _)
  · rename_i hsign
    cases hsigned
    refine finds_signed [] bytes (.inl rfl) (by decide) fun _ hhead => ?_
    obtain ⟨rest, rfl⟩ := List.head?_eq_some_iff.mp hhead
    exact hsign rest rfl

/-- Whatever the text, no index leaves it and no number its word, and the date is the same. -/
theorem finds_date (keepOffset : Bool) (bytes : List UInt8) :
    (find keepOffset bytes).Finds (ofBytes? keepOffset bytes) := by
  unfold find ofBytes?
  cases inner? bytes with
  | some inner => exact (finds_millis inner).map _
  | none => exact (finds_iso bytes).map _

end JsonPull.DateText
