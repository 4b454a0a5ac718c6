import JsonPull.Proofs.Stream.Window
import JsonPull.Stream.Source

/-! # What a source delivers

A read takes bytes from the front of what is left, or nothing. A source that is fair delivers
nothing only where nothing is left. -/

namespace JsonPull

namespace Source

/-- The bytes of a script. -/
def scriptBytes : List Part → List UInt8
  | [] => []
  | .bytes data start :: rest => data.data.toList.drop start ++ scriptBytes rest
  | _ :: rest => scriptBytes rest

/-- The bytes that a source has left. -/
def bytes (source : Source) : List UInt8 := scriptBytes source.script

theorem length_bytes (source : Source) : source.bytes.length = source.remaining := by
  unfold bytes remaining
  induction source.script with
  | nil => rfl
  | cons part rest ih =>
      cases part <;> simp only [scriptBytes, scriptSize, List.length_append, List.length_drop,
        length_toList, ih]

end Source

/-- The bytes that a read brought. -/
def Delivery.bytes (delivery : Delivery) : List UInt8 :=
  match delivery.result with
  | .ok data => data.data.toList
  | .error _ => []

namespace Source

theorem takeBytes_bytes (room : Nat) (data : ByteArray) (start : Nat) (rest : List Part) :
    (takeBytes room data start rest).1.data.toList ++
      scriptBytes (takeBytes room data start rest).2 = scriptBytes (.bytes data start :: rest) := by
  have hlength := length_toList data
  simp only [takeBytes, toList_extract, scriptBytes, Nat.add_sub_cancel_left]
  split
  · rw [List.take_of_length_le (by rw [List.length_drop]; omega)]
  · rw [scriptBytes, ← List.append_assoc, ← List.drop_drop, List.take_append_drop]

theorem play_bytes (waiting : Waiting) (room : Nat) (script : List Part) :
    (play waiting room script).bytes ++ scriptBytes (play waiting room script).script =
      scriptBytes script := by
  induction script with
  | nil => rfl
  | cons part rest ih =>
      cases part with
      | bytes data start => exact takeBytes_bytes room data start rest
      | failure message => rfl
      | interrupted => cases waiting <;> first | exact ih | rfl
      | pending => cases waiting <;> exact ih
      | cancel => exact ih

theorem play_size {waiting : Waiting} {room : Nat} {script : List Part} {data : ByteArray}
    (h : (play waiting room script).result = .ok data) : data.size ≤ room := by
  induction script with
  | nil =>
      cases h
      exact Nat.zero_le _
  | cons part rest ih =>
      cases part with
      | bytes block start =>
          cases h
          rw [ByteArray.size_extract]
          omega
      | failure message => cases h
      | interrupted =>
          cases waiting with
          | blocking => exact ih h
          | polled => cases h
      | pending => cases waiting <;> exact ih h
      | cancel => exact ih h

/-- A read splits what is left. -/
theorem read_bytes (source : Source) (room : Nat) :
    (source.read room).1.bytes ++ (source.read room).2.bytes = source.bytes := by
  unfold read
  split
  · exact play_bytes _ _ _
  · rfl

theorem read_size {source : Source} {room : Nat} {data : ByteArray}
    (h : (source.read room).1.result = .ok data) : data.size ≤ room := by
  unfold read at h
  split at h
  · exact (play_size h).trans (Nat.min_le_left _ _)
  · cases h
    exact Nat.zero_le _

/-! ## Fair sources -/

/-- Every part of a script brings a byte. -/
def Filled (script : List Part) : Prop :=
  ∀ data start, .bytes data start ∈ script → start < data.size

/-- A source that reads nothing only at its end. -/
structure Fair (source : Source) : Prop where
  isOpen : source.isOpen = true
  limit : source.limit ≠ some 0
  filled : Filled source.script

theorem filled_play {waiting : Waiting} {room : Nat} {script : List Part} (h : Filled script) :
    Filled (play waiting room script).script := by
  induction script with
  | nil => exact h
  | cons part rest ih =>
      have hrest : Filled rest := fun data start hmem => h data start (List.mem_cons_of_mem _ hmem)
      cases part with
      | bytes block first =>
          intro data start hmem
          simp only [play, takeBytes] at hmem
          split at hmem
          · exact hrest data start hmem
          · rcases List.mem_cons.mp hmem with heq | hmem
            · cases heq
              omega
            · exact hrest data start hmem
      | failure message => exact hrest
      | interrupted =>
          cases waiting with
          | blocking => exact ih hrest
          | polled => exact hrest
      | pending => cases waiting <;> exact ih hrest
      | cancel => exact ih hrest

theorem play_nothing {waiting : Waiting} {room : Nat} {script : List Part} {data : ByteArray}
    (h : Filled script) (hroom : 0 < room) (hresult : (play waiting room script).result = .ok data)
    (hdata : data.size = 0) : scriptBytes script = [] := by
  induction script with
  | nil => rfl
  | cons part rest ih =>
      have hrest : Filled rest := fun data start hmem => h data start (List.mem_cons_of_mem _ hmem)
      cases part with
      | bytes block first =>
          have hfirst := h block first (List.mem_cons_self ..)
          cases hresult
          rw [ByteArray.size_extract] at hdata
          omega
      | failure message => cases hresult
      | interrupted =>
          cases waiting with
          | blocking => exact ih hrest hresult
          | polled => cases hresult
      | pending => cases waiting <;> exact ih hrest hresult
      | cancel => exact ih hrest hresult

theorem Fair.read {source : Source} (h : source.Fair) (room : Nat) :
    (source.read room).2.Fair := by
  rw [Source.read, if_pos h.isOpen]
  exact ⟨h.isOpen, h.limit, filled_play h.filled⟩

/-- With room for a byte, a fair source delivers nothing only where nothing is left. -/
theorem Fair.nothing {source : Source} (h : source.Fair) {room : Nat} {data : ByteArray}
    (hroom : 0 < room) (hresult : (source.read room).1.result = .ok data) (hdata : data.size = 0) :
    source.bytes = [] := by
  rw [Source.read, if_pos h.isOpen] at hresult
  refine play_nothing h.filled ?_ hresult hdata
  have hlimit := h.limit
  cases hl : source.limit with
  | none => simpa using hroom
  | some n =>
      have hn : n ≠ 0 := by
        rintro rfl
        exact hlimit hl
      rw [Option.getD_some]
      omega

end Source

end JsonPull
