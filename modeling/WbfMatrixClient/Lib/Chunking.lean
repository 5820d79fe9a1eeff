import Mathlib.Data.List.Basic
import Mathlib.Data.List.TakeDrop

/-!
# Pieces of a list

A list cut into pieces of one size, the last of which may be shorter. A piece
is named by its index; the lemmas relate the pieces to prefixes of the list,
and a window that stays inside one piece to the same window of the list.
-/

namespace WbfMatrixClient
namespace Chunking

universe u

section Pieces

variable {α : Type u}

/-- The piece at an index. -/
def piece (size : Nat) (index : Nat) (xs : List α) : List α :=
  (xs.drop (index * size)).take size

theorem length_piece (size index : Nat) (xs : List α) :
    (piece size index xs).length = min size (xs.length - index * size) := by simp [piece]

theorem length_piece_le (size index : Nat) (xs : List α) : (piece size index xs).length ≤ size := by
  rw [length_piece]
  exact Nat.min_le_left _ _

variable {size index : Nat} {xs : List α}

theorem length_piece_of_le (h : (index + 1) * size ≤ xs.length) :
    (piece size index xs).length = size := by
  rw [length_piece]
  rw [Nat.add_mul, Nat.one_mul] at h
  omega

/-- A prefix of whole pieces grows by one piece. -/
theorem take_succ_mul (size index : Nat) (xs : List α) :
    xs.take ((index + 1) * size) = xs.take (index * size) ++ piece size index xs := by
  rw [Nat.add_mul, Nat.one_mul, piece, List.take_add]

/-- The piece that a prefix ends in. -/
theorem drop_take_eq_take_piece {n : Nat} (h : n ≤ (index + 1) * size) :
    (xs.take n).drop (index * size) = (piece size index xs).take (n - index * size) := by
  rw [Nat.add_mul, Nat.one_mul] at h
  rw [piece, List.take_take, List.drop_take]
  congr 1
  omega

/-- The last piece reaches the end of the list. -/
theorem drop_eq_piece (h : xs.length ≤ (index + 1) * size) :
    xs.drop (index * size) = piece size index xs := by
  rw [Nat.add_mul, Nat.one_mul] at h
  rw [piece, List.take_of_length_le]
  rw [List.length_drop]
  omega

/-- A window that begins inside a piece, cut off at the end of the piece. -/
theorem drop_piece (size index offset : Nat) (xs : List α) :
    (piece size index xs).drop offset =
      (xs.drop (index * size + offset)).take (size - offset) := by
  rw [piece, List.drop_take, List.drop_drop]

/-- Whole pieces in order make up the list they were cut from. -/
theorem flatten_pieces (size count : Nat) (xs : List α) :
    ((List.range count).map fun index => piece size index xs).flatten =
      xs.take (count * size) := by
  induction count with
  | zero => simp
  | succ count ih =>
    rw [List.range_succ, List.map_append, List.flatten_append, ih, take_succ_mul]
    simp

end Pieces

end Chunking
end WbfMatrixClient
