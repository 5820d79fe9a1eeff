import Mathlib.Data.List.Basic
import Mathlib.Data.List.TakeDrop

/-!
# Files as lists of bytes

Reading an exact range and writing at an offset, with the frame lemmas that
say which ranges a write or a cut leaves as they were.
-/

namespace WbfMatrixClient
namespace ByteFile

/-- The bytes of a range, if the file holds all of them. -/
def readExact (file : List UInt8) (offset length : Nat) : Option (List UInt8) :=
  if offset + length ≤ file.length then
    some ((file.drop offset).take length)
  else
    none

/-- Writing at an offset; a gap after the end is filled with zeros. -/
def writeAt (file : List UInt8) (offset : Nat) (bytes : List UInt8) : List UInt8 :=
  file.take offset ++ List.replicate (offset - file.length) 0 ++ bytes ++
    file.drop (offset + bytes.length)

theorem readExact_isSome_iff (file : List UInt8) (offset length : Nat) :
    (readExact file offset length).isSome = true ↔ offset + length ≤ file.length := by
  unfold readExact
  split_ifs with h <;> simp [h]

variable {offset length : Nat}

/-- A range within the first bytes of a file is read from these alone. -/
theorem readExact_append {first rest : List UInt8} (h : offset + length ≤ first.length) :
    readExact (first ++ rest) offset length = readExact first offset length := by
  unfold readExact
  have hwhole : offset + length ≤ (first ++ rest).length := by
    rw [List.length_append]
    omega
  rw [if_pos h, if_pos hwhole, List.drop_append_of_le_length (by omega),
    List.take_append_of_le_length (by rw [List.length_drop]; omega)]

variable {file : List UInt8}

/-- A cut behind a range does not change it. -/
theorem readExact_take {cut : Nat} (h : offset + length ≤ cut) :
    readExact (file.take cut) offset length = readExact file offset length := by
  unfold readExact
  rw [List.length_take]
  by_cases hle : offset + length ≤ file.length
  · rw [if_pos hle, if_pos (by omega), List.drop_take, List.take_take]
    congr 2
    omega
  · rw [if_neg hle, if_neg (by omega)]

variable {bytes : List UInt8}

theorem length_writeAt (h : offset ≤ file.length) :
    (writeAt file offset bytes).length = max file.length (offset + bytes.length) := by
  simp only [writeAt, List.length_append, List.length_take, List.length_replicate,
    List.length_drop]
  omega

theorem writeAt_eq (h : offset ≤ file.length) :
    writeAt file offset bytes =
      file.take offset ++ (bytes ++ file.drop (offset + bytes.length)) := by
  have hgap : offset - file.length = 0 := by omega
  simp [writeAt, hgap]

/-- What was written is read back. -/
theorem readExact_writeAt (h : offset ≤ file.length) :
    readExact (writeAt file offset bytes) offset bytes.length = some bytes := by
  have hlength : (file.take offset).length = offset := by
    rw [List.length_take]
    omega
  unfold readExact
  rw [length_writeAt h, if_pos (by omega), writeAt_eq h, List.drop_left' hlength]
  simp

/-- A write leaves the ranges before it alone. -/
theorem readExact_writeAt_of_le {at' : Nat} (h : offset + length ≤ at') (hat : at' ≤ file.length) :
    readExact (writeAt file at' bytes) offset length = readExact file offset length := by
  rw [writeAt_eq hat, readExact_append, readExact_take h]
  rw [List.length_take]
  omega

/-- From the offset on: what was written, then what it did not reach. -/
theorem drop_writeAt (h : offset ≤ file.length) :
    (writeAt file offset bytes).drop offset =
      bytes ++ (file.drop offset).drop bytes.length := by
  have hlength : (file.take offset).length = offset := by
    rw [List.length_take]
    omega
  rw [writeAt_eq h, List.drop_left' hlength, List.drop_drop]

/-- Reading from a file that ends in a known tail. -/
theorem readExact_of_drop (h : readExact file offset length = some bytes) :
    bytes = (file.drop offset).take length ∧ offset + length ≤ file.length := by
  unfold readExact at h
  split_ifs at h with hle
  cases h
  exact ⟨rfl, hle⟩

/-- The bytes of a range, with zeros for those the file does not hold. -/
def readPadded (file : List UInt8) (offset length : Nat) : List UInt8 :=
  (List.range length).map fun k => file.getD (offset + k) 0

@[simp] theorem length_readPadded (file : List UInt8) (offset length : Nat) :
    (readPadded file offset length).length = length := by simp [readPadded]

theorem readExact_eq_readPadded (h : offset + length ≤ file.length) :
    readExact file offset length = some (readPadded file offset length) := by
  rw [readExact, if_pos h]
  congr 1
  apply List.ext_getElem
  · rw [length_readPadded, List.length_take, List.length_drop]
    omega
  · intro k hk hk'
    rw [length_readPadded] at hk'
    simp [readPadded, List.getElem?_eq_getElem (show offset + k < file.length by omega)]

/-- A short range, filled up to its length. -/
theorem map_range_getD (h : bytes.length ≤ length) :
    ((List.range length).map fun k => bytes.getD k 0) =
      bytes ++ List.replicate (length - bytes.length) 0 := by
  apply List.ext_getElem
  · simp only [List.length_map, List.length_range, List.length_append, List.length_replicate]
    omega
  · intro k hk hk'
    simp only [List.length_map, List.length_range] at hk
    rw [List.getElem_map, List.getElem_range, List.getD_eq_getElem?_getD]
    by_cases hin : k < bytes.length
    · rw [List.getElem_append_left hin, List.getElem?_eq_getElem hin, Option.getD_some]
    · rw [List.getElem_append_right (by omega), List.getElem_replicate,
        List.getElem?_eq_none (by omega), Option.getD_none]

/-- A write behind the end only adds to the file. -/
theorem writeAt_of_length_le (h : file.length ≤ offset) (bytes : List UInt8) :
    writeAt file offset bytes =
      file ++ (List.replicate (offset - file.length) 0 ++ bytes) := by
  rw [writeAt, List.take_of_length_le h, List.drop_eq_nil_of_le (by omega), List.append_nil,
    List.append_assoc]

theorem getD_writeAt (h : file.length ≤ offset) (bytes : List UInt8) (k : Nat) :
    (writeAt file offset bytes).getD k 0 =
      if k < offset then file.getD k 0 else bytes.getD (k - offset) 0 := by
  rw [writeAt_of_length_le h]
  simp only [List.getD_eq_getElem?_getD]
  by_cases hfile : k < file.length
  · rw [List.getElem?_append_left hfile, if_pos (by omega)]
  · rw [List.getElem?_append_right (by omega)]
    by_cases hgap : k < offset
    · rw [List.getElem?_append_left (by rw [List.length_replicate]; omega), if_pos hgap,
        List.getElem?_replicate, if_pos (by omega), List.getElem?_eq_none (by omega)]
      rfl
    · rw [List.getElem?_append_right (by rw [List.length_replicate]; omega), if_neg hgap,
        List.length_replicate]
      congr 2
      omega

/-- A write behind the end leaves the ranges before it as they were, also where
they were not filled. -/
theorem readPadded_writeAt_of_le {start : Nat} (h : offset + length ≤ start)
    (hstart : file.length ≤ start) (bytes : List UInt8) :
    readPadded (writeAt file start bytes) offset length = readPadded file offset length := by
  refine List.map_congr_left fun k hk => ?_
  have hlt : k < length := List.mem_range.mp hk
  rw [getD_writeAt hstart, if_pos (by omega)]

theorem readPadded_writeAt (hoffset : file.length ≤ offset) (hbytes : bytes.length ≤ length) :
    readPadded (writeAt file offset bytes) offset length =
      bytes ++ List.replicate (length - bytes.length) 0 := by
  rw [← map_range_getD hbytes]
  refine List.map_congr_left fun k _ => ?_
  rw [getD_writeAt hoffset, if_neg (by omega), Nat.add_sub_cancel_left]

theorem readPadded_of_length_le (h : file.length ≤ offset) (length : Nat) :
    readPadded file offset length = List.replicate length 0 := by
  refine List.eq_replicate_iff.mpr ⟨length_readPadded file offset length, fun byte hbyte => ?_⟩
  obtain ⟨k, _, rfl⟩ := List.mem_map.mp hbyte
  rw [List.getD_eq_getElem?_getD, List.getElem?_eq_none (by omega), Option.getD_none]

end ByteFile
end WbfMatrixClient
