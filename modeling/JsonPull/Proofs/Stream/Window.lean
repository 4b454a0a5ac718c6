import Mathlib
import JsonPull.Stream.Window

/-! # What a window holds

However the bytes of a window are moved, they stay the same part of what was delivered. -/

namespace JsonPull

theorem toList_extract (data : ByteArray) (first last : Nat) :
    (data.extract first last).data.toList = (data.data.toList.drop first).take (last - first) := by
  rw [ByteArray.data_extract, Array.toList_extract, List.extract_eq_take_drop]

theorem length_toList (data : ByteArray) : data.data.toList.length = data.size := by
  rw [Array.length_toList, ByteArray.size_data]

/-- A block whose bytes from `first` on are overwritten. -/
theorem toList_splice (bytes data : ByteArray) (first : Nat) :
    (bytes.copySlice 0 data first bytes.size).data.toList =
      data.data.toList.take first ++ bytes.data.toList ++
        data.data.toList.drop (first + bytes.size) := by
  have hlength := length_toList data
  have hbytes := length_toList bytes
  rw [ByteArray.copySlice_eq_append]
  simp only [ByteArray.data_append, Array.toList_append, toList_extract, List.drop_zero,
    Nat.sub_zero, Nat.zero_add]
  congr 2
  · rw [← hbytes, List.take_length]
  · rw [ByteArray.size_data, ByteArray.size_data, Nat.min_self]
    exact List.take_of_length_le (by rw [List.length_drop]; omega)

theorem getElem?_toList (data : ByteArray) (i : Nat) : data[i]? = data.data.toList[i]? := by
  have hlength := length_toList data
  by_cases h : i < data.size
  · rw [getElem?_pos data i h, List.getElem?_eq_getElem (by omega)]
    rfl
  · rw [getElem?_neg data i h, List.getElem?_eq_none (by omega)]

namespace Window

variable {delivered : List UInt8} {w : Window}

/-- The window holds the bytes of `delivered` from `consumed` on, and the cursor stands among
them. -/
structure Holds (delivered : List UInt8) (w : Window) : Prop where
  pos_le : w.pos ≤ w.used
  used_le : w.used ≤ w.capacity
  fetched : w.consumed + w.used = delivered.length
  held : w.data.data.toList.take w.used = delivered.drop w.consumed

theorem Holds.advance (h : w.Holds delivered) {count : Nat} (hcount : w.pos + count ≤ w.used) :
    (w.advance count).Holds delivered :=
  ⟨hcount, h.used_le, h.fetched, h.held⟩

/-! ## Moving bytes -/

/-- The unread bytes at the front of a block are what was delivered from the cursor on. -/
theorem Holds.moved (h : w.Holds delivered) (data : ByteArray) (hsize : w.unreadCount ≤ data.size)
    (hdata : data.data.toList.take w.unreadCount = (w.data.extract w.pos w.used).data.toList) :
    ({ w with data }.rebase).Holds delivered := by
  have hpos := h.pos_le
  have hfetched := h.fetched
  refine ⟨Nat.zero_le _, hsize, ?_, ?_⟩
  · simp only [rebase, unreadCount]
    omega
  · change data.data.toList.take w.unreadCount = delivered.drop (w.consumed + w.pos)
    rw [hdata, toList_extract, ← List.drop_drop, ← h.held, List.drop_take]

theorem Holds.length_unread (h : w.Holds delivered) :
    (w.data.extract w.pos w.used).data.toList.length = w.unreadCount := by
  have hused : w.used ≤ w.data.size := h.used_le
  rw [length_toList, ByteArray.size_extract, unreadCount]
  omega

/-- A compacted block begins with the unread bytes and is as large as before. -/
theorem toList_compact (w : Window) :
    w.compact.data.data.toList = (w.data.extract w.pos w.used).data.toList ++
      w.data.data.toList.drop (w.data.extract w.pos w.used).size := by
  have h := toList_splice (w.data.extract w.pos w.used) w.data 0
  rwa [List.take_zero, List.nil_append, Nat.zero_add] at h

theorem Holds.compact (h : w.Holds delivered) : w.compact.Holds delivered := by
  have hlength := h.length_unread
  have hdata := w.toList_compact
  refine h.moved w.compact.data ?_ ?_
  · rw [← length_toList, hdata, List.length_append]
    omega
  · rw [hdata, List.take_append_of_le_length hlength.ge, ← hlength, List.take_length]

theorem Holds.capacity_compact (h : w.Holds delivered) : w.compact.capacity = w.capacity := by
  have hlength := h.length_unread
  have hused : w.used ≤ w.data.size := h.used_le
  have hunread : w.unreadCount ≤ w.used := Nat.sub_le _ _
  change w.compact.data.size = w.data.size
  rw [← length_toList, toList_compact, List.length_append, List.length_drop, ← length_toList,
    hlength, length_toList]
  omega

theorem Holds.settle (h : w.Holds delivered) : w.settle.Holds delivered := by
  unfold Window.settle
  split
  · exact h.compact
  · exact h

theorem ended_settle (w : Window) : w.settle.ended = w.ended := by
  unfold Window.settle
  split
  · simp only [Window.compact, Window.rebase]
  · rfl

theorem Holds.moveInto (h : w.Holds delivered) {block : ByteArray} (hblock : w.used ≤ block.size) :
    (w.moveInto block 0).Holds delivered := by
  have hused : w.used ≤ w.data.size := h.used_le
  have hfirst : (w.data.extract 0 w.used).data.toList.length = w.used := by
    rw [length_toList, ByteArray.size_extract]
    omega
  refine ⟨h.pos_le, ?_, h.fetched, ?_⟩
  · simp only [Window.moveInto, capacity, ByteArray.size_append, ByteArray.size_extract]
    omega
  · simp only [Window.moveInto, ByteArray.data_append, Array.toList_append]
    rw [List.take_append_of_le_length hfirst.ge, toList_extract, List.drop_zero, List.take_take,
      ← h.held]
    simp

theorem Holds.moveUnread (h : w.Holds delivered) (block : ByteArray) :
    (w.moveInto block w.pos).rebase.Holds delivered := by
  have hlength := h.length_unread
  refine h.moved _ ?_ ?_
  · rw [ByteArray.size_append, ← length_toList, hlength]
    omega
  · rw [ByteArray.data_append, Array.toList_append, List.take_append_of_le_length hlength.ge,
      ← hlength, List.take_length]

theorem Holds.commit (h : w.Holds delivered) {bytes : ByteArray} (hbytes : bytes.size ≤ w.spare) :
    (w.commit bytes).Holds (delivered ++ bytes.data.toList) := by
  have hpos := h.pos_le
  have hused : w.used ≤ w.data.size := h.used_le
  have hspare : bytes.size ≤ w.data.size - w.used := hbytes
  have hsize := length_toList bytes
  have hdata := length_toList w.data
  have hfetched := h.fetched
  have hfirst : (w.data.data.toList.take w.used ++ bytes.data.toList).length = w.used + bytes.size := by
    rw [List.length_append, List.length_take]
    omega
  refine ⟨?_, ?_, ?_, ?_⟩
  · simp only [Window.commit]
    omega
  · have hlength := length_toList (bytes.copySlice 0 w.data w.used bytes.size)
    rw [toList_splice, List.length_append, hfirst, List.length_drop] at hlength
    simp only [Window.commit, capacity]
    omega
  · simp only [Window.commit, List.length_append]
    omega
  · simp only [Window.commit]
    rw [toList_splice, List.take_append_of_le_length hfirst.ge, ← hfirst, List.take_length, h.held,
      List.drop_append_of_le_length (by omega)]

/-! ## Looking at bytes -/

theorem Holds.byte? (h : w.Holds delivered) (ahead : Nat) :
    w.byte? ahead = delivered[w.cursor + ahead]? := by
  have hfetched := h.fetched
  unfold Window.byte? cursor
  split
  · rename_i hlt
    have htake : (w.data.data.toList.take w.used)[w.pos + ahead]? =
        w.data.data.toList[w.pos + ahead]? := List.getElem?_take_of_lt hlt
    rw [getElem?_toList, ← htake, h.held, List.getElem?_drop, Nat.add_assoc]
  · exact (List.getElem?_eq_none (by omega)).symm

theorem Holds.slice? (h : w.Holds delivered) {first last : Nat} (hfirst : w.consumed ≤ first)
    (hle : first ≤ last) (hlast : last ≤ w.consumed + w.used) :
    w.slice? first last = some ((delivered.drop first).take (last - first)) := by
  have hsplit : first = w.consumed + (first - w.consumed) := by omega
  rw [Window.slice?, if_pos ⟨hfirst, hle, hlast⟩, toList_extract]
  congr 1
  conv_rhs => rw [hsplit, ← List.drop_drop, ← h.held, List.drop_take, List.take_take]
  congr 1
  omega

end Window

end JsonPull
