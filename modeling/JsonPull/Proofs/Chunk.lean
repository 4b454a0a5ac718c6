import Mathlib
import JsonPull.Chunk

/-! # Chunks of a text

A text is cut into no more chunks than were asked for, each of them whole characters. A chunk is
shorter than its due only at the end of the text, and longer only by the rest of a character. -/

namespace JsonPull.Chunk

variable {size : Nat} {chars : List Char}

/-! ## Bytes of characters -/

/-- How many bytes characters take. -/
def byteCount (chars : List Char) : Nat :=
  (chars.map Char.utf8Size).sum

@[simp] theorem byteCount_nil : byteCount [] = 0 := rfl

@[simp] theorem byteCount_cons (c : Char) (chars : List Char) :
    byteCount (c :: chars) = c.utf8Size + byteCount chars := by
  rw [byteCount, List.map_cons, List.sum_cons, byteCount]

theorem byteCount_append (front chars : List Char) :
    byteCount (front ++ chars) = byteCount front + byteCount chars := by
  rw [byteCount, List.map_append, List.sum_append, byteCount, byteCount]

theorem utf8ByteSize_ofList (chars : List Char) :
    (String.ofList chars).utf8ByteSize = byteCount chars := by
  induction chars with
  | nil => rfl
  | cons c chars ih =>
      rw [String.ofList_cons, String.utf8ByteSize_append, String.utf8ByteSize_singleton, ih,
        byteCount_cons]

theorem byteCount_pos (h : chars ≠ []) : 0 < byteCount chars := by
  obtain ⟨c, rest, rfl⟩ := List.exists_cons_of_ne_nil h
  rw [byteCount_cons]
  exact Nat.add_pos_left c.utf8Size_pos _

/-! ## One chunk -/

theorem take_zero (chars : List Char) : take 0 chars = ([], chars) := by
  cases chars <;> simp [take]

theorem take_cons (h : 0 < size) (c : Char) (rest : List Char) :
    take size (c :: rest) =
      (c :: (take (size - c.utf8Size) rest).1, (take (size - c.utf8Size) rest).2) := by
  rw [take, if_neg (Nat.ne_of_gt h)]

/-- At most three bytes of the last character are too many. -/
theorem byteCount_take_le (size : Nat) (chars : List Char) :
    byteCount (take size chars).1 ≤ size + 3 := by
  induction chars generalizing size with
  | nil => exact Nat.zero_le _
  | cons c rest ih =>
      rcases Nat.eq_zero_or_pos size with rfl | hpos
      · rw [take_zero]
        exact Nat.zero_le _
      · have hfour := c.utf8Size_le_four
        rw [take_cons hpos, byteCount_cons]
        by_cases hmore : c.utf8Size < size
        · have hrest := ih (size - c.utf8Size)
          omega
        · rw [Nat.sub_eq_zero_of_le (Nat.not_lt.mp hmore), take_zero, byteCount_nil]
          omega

/-- What is left behind is left because enough was taken. -/
theorem le_byteCount_take (h : (take size chars).2 ≠ []) :
    size ≤ byteCount (take size chars).1 := by
  induction chars generalizing size with
  | nil => exact absurd rfl h
  | cons c rest ih =>
      rcases Nat.eq_zero_or_pos size with rfl | hpos
      · exact Nat.zero_le _
      · rw [take_cons hpos] at h ⊢
        have hrest := ih h
        rw [byteCount_cons]
        omega

theorem byteCount_take_add (size : Nat) (chars : List Char) :
    byteCount (take size chars).1 + byteCount (take size chars).2 = byteCount chars := by
  rw [← byteCount_append, take_append]

/-! ## All chunks -/

variable (hsize : 0 < size)

theorem splitAt_nil : splitAt size hsize [] = [] := by
  rw [splitAt]

theorem splitAt_cons (c : Char) (rest : List Char) :
    splitAt size hsize (c :: rest) =
      (take size (c :: rest)).1 :: splitAt size hsize (take size (c :: rest)).2 := by
  rw [splitAt]

theorem ne_nil_of_mem_splitAt : ∀ chunk ∈ splitAt size hsize chars, chunk ≠ [] := by
  fun_induction splitAt size hsize chars with
  | case1 => exact List.forall_mem_nil _
  | case2 c rest ih =>
      refine List.forall_mem_cons.mpr ⟨?_, ih⟩
      rw [take_cons hsize]
      exact List.cons_ne_nil _ _

theorem byteCount_le_of_mem_splitAt :
    ∀ chunk ∈ splitAt size hsize chars, byteCount chunk ≤ size + 3 := by
  fun_induction splitAt size hsize chars with
  | case1 => exact List.forall_mem_nil _
  | case2 c rest ih => exact List.forall_mem_cons.mpr ⟨byteCount_take_le size _, ih⟩

/-- Every chunk but the last is followed by something, and so it has its due. -/
theorem le_byteCount_of_mem_dropLast :
    ∀ chunk ∈ (splitAt size hsize chars).dropLast, size ≤ byteCount chunk := by
  fun_induction splitAt size hsize chars with
  | case1 => exact List.forall_mem_nil _
  | case2 c rest ih =>
      by_cases hleft : (take size (c :: rest)).2 = []
      · rw [hleft, splitAt_nil]
        exact List.forall_mem_nil _
      · have hmore : splitAt size hsize (take size (c :: rest)).2 ≠ [] := by
          obtain ⟨c', rest', hcons⟩ := List.exists_cons_of_ne_nil hleft
          rw [hcons, splitAt_cons]
          exact List.cons_ne_nil _ _
        rw [List.dropLast_cons_of_ne_nil hmore]
        exact List.forall_mem_cons.mpr ⟨le_byteCount_take hleft, ih⟩

/-- As all chunks but the last have their due, and the last is not empty, there are no more of them
than of chunks of exactly that size. -/
theorem length_splitAt_mul_lt :
    (splitAt size hsize chars).length * size < byteCount chars + size := by
  fun_induction splitAt size hsize chars with
  | case1 => simpa using hsize
  | case2 c rest ih =>
      have hsplit := byteCount_take_add size (c :: rest)
      rw [List.length_cons, Nat.succ_mul]
      by_cases hleft : (take size (c :: rest)).2 = []
      · have hpos := byteCount_pos (List.cons_ne_nil c rest)
        rw [hleft, splitAt_nil, List.length_nil]
        omega
      · have hdue := le_byteCount_take hleft
        omega

/-! ## Texts -/

theorem join_map_ofList (chunks : List (List Char)) :
    String.join (chunks.map String.ofList) = String.ofList chunks.flatten := by
  rw [← String.toList_inj, String.toList_join, String.toList_ofList, List.flatMap_map]
  simp only [String.toList_ofList, List.flatMap_id']

/-- How a text may be cut into at most so many chunks: they make up the text, none of them is empty,
and each begins and ends between two characters. Every chunk but the last has its due of the bytes,
rounded up, and none has more than three bytes beyond it. -/
structure IsCut (text : String) (parts : Nat) (chunks : List String) : Prop where
  join : String.join chunks = text
  length_le : chunks.length ≤ parts
  nonempty : ∀ chunk ∈ chunks, chunk ≠ ""
  borders : ∀ n, (String.join (chunks.take n)).rawEndPos.IsValid text
  le_size : ∀ chunk ∈ chunks.dropLast, text.utf8ByteSize ⌈/⌉ parts ≤ chunk.utf8ByteSize
  size_le : ∀ chunk ∈ chunks, chunk.utf8ByteSize ≤ text.utf8ByteSize ⌈/⌉ parts + 3

/-- Any chunks that make up a text lie between borders of its characters. -/
theorem isValid_join_take {text : String} {chunks : List String} (h : String.join chunks = text)
    (n : Nat) : (String.join (chunks.take n)).rawEndPos.IsValid text := by
  refine String.Pos.Raw.isValid_iff_exists_append.mpr ⟨_, String.join (chunks.drop n), ?_, rfl⟩
  rw [← String.join_append, List.take_append_drop, h]

/-- Splitting a text succeeds for any number of parts but zero, and cuts it as it should. -/
theorem split_cuts (text : String) {parts : Nat} (h : 0 < parts) :
    ∃ chunks, split text parts = .ok chunks ∧ IsCut text parts chunks := by
  have hdue : (text.utf8ByteSize + parts - 1) / parts = text.utf8ByteSize ⌈/⌉ parts :=
    (Nat.ceilDiv_eq_add_pred_div _ _).symm
  have hbytes : byteCount text.toList = text.utf8ByteSize := by
    rw [← utf8ByteSize_ofList, String.ofList_toList]
  have hcover : text.utf8ByteSize ≤ parts * (text.utf8ByteSize ⌈/⌉ parts) :=
    le_smul_ceilDiv h
  rw [split, if_neg (Nat.ne_of_gt h), hdue]
  generalize hsize : text.utf8ByteSize ⌈/⌉ parts = size at hcover
  refine ⟨_, rfl, ?_⟩
  split
  · rename_i hpos
    have hjoin : String.join ((splitAt size hpos text.toList).map String.ofList) = text := by
      rw [join_map_ofList, flatten_splitAt, String.ofList_toList]
    refine ⟨hjoin, ?_, ?_, isValid_join_take hjoin, ?_, ?_⟩
    · have hcount : (splitAt size hpos text.toList).length * size < text.utf8ByteSize + size := by
        rw [← hbytes]
        exact length_splitAt_mul_lt hpos
      have hlt : (splitAt size hpos text.toList).length * size < (parts + 1) * size := by
        rw [Nat.succ_mul]
        omega
      rw [List.length_map]
      exact Nat.le_of_lt_succ (Nat.lt_of_mul_lt_mul_right hlt)
    · rw [List.forall_mem_map]
      intro chunk hchunk hempty
      refine ne_nil_of_mem_splitAt hpos chunk hchunk ?_
      rw [← String.toList_ofList (l := chunk), hempty]
      rfl
    · rw [← List.map_dropLast, List.forall_mem_map]
      intro chunk hchunk
      rw [utf8ByteSize_ofList, hsize]
      exact le_byteCount_of_mem_dropLast hpos chunk hchunk
    · rw [List.forall_mem_map]
      intro chunk hchunk
      rw [utf8ByteSize_ofList, hsize]
      exact byteCount_le_of_mem_splitAt hpos chunk hchunk
  · -- No byte is due, so there is none.
    rename_i hzero
    have hempty : text = "" := by
      rw [← String.utf8ByteSize_eq_zero_iff]
      rw [Nat.eq_zero_of_not_pos hzero] at hcover
      omega
    subst hempty
    exact ⟨rfl, Nat.zero_le _, List.forall_mem_nil _, isValid_join_take rfl, List.forall_mem_nil _,
      List.forall_mem_nil _⟩

/-- Seven bytes in two parts: the first chunk takes the whole of its third character. -/
theorem split_cuts_whole_characters :
    0 < 2 ∧ split "a\u00e9\u20acb" 2 = .ok ["a\u00e9\u20ac", "b"] ∧
      IsCut "a\u00e9\u20acb" 2 ["a\u00e9\u20ac", "b"] := by
  have hsplit : split "a\u00e9\u20acb" 2 = .ok ["a\u00e9\u20ac", "b"] := by
    decide +kernel
  obtain ⟨chunks, hchunks, hcut⟩ := split_cuts "a\u00e9\u20acb" Nat.zero_lt_two
  obtain rfl := Except.ok.inj (hchunks.symm.trans hsplit)
  exact ⟨Nat.zero_lt_two, hsplit, hcut⟩

end JsonPull.Chunk
