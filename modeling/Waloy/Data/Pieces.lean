import Mathlib.Algebra.Order.Floor.Div
import Mathlib.Data.List.Basic

/-!
# Cutting a list into pieces of one size

A list is cut after every `size` elements; the last piece takes what is left. The pieces are
counted by the quotient rounded up, and put together again they are the list.
-/
namespace Waloy.Data

variable {α : Type} {size : Nat}

/-- Piece `k` of a list. -/
def piece (size : Nat) (xs : List α) (k : Nat) : List α := (xs.drop (k * size)).take size

def pieces (size : Nat) (xs : List α) : List (List α) :=
  (List.range (xs.length ⌈/⌉ size)).map (piece size xs)

/-- Piece `k` begins inside the list exactly when it is one of the pieces. -/
theorem lt_pieceCount (positive : 0 < size) {total k : Nat} :
    k < total ⌈/⌉ size ↔ k * size < total := by
  rw [← Nat.not_le, ceilDiv_le_iff_le_mul positive, Nat.not_le, Nat.mul_comm]

@[simp] theorem pieces_length (size : Nat) (xs : List α) :
    (pieces size xs).length = xs.length ⌈/⌉ size := by
  simp [pieces]

theorem piece_length (size : Nat) (xs : List α) (k : Nat) :
    (piece size xs k).length = min size (xs.length - k * size) := by
  simp [piece]

/-- No piece is empty, and none is longer than the size. -/
theorem pieces_bounded (positive : 0 < size) (xs : List α) :
    ∀ x ∈ pieces size xs, 1 ≤ x.length ∧ x.length ≤ size := by
  intro x hx
  obtain ⟨k, hk, rfl⟩ := List.mem_map.mp hx
  have inside := (lt_pieceCount positive).mp (List.mem_range.mp hk)
  rw [piece_length]
  omega

/-- The first `n` pieces are the beginning of the list. -/
theorem flatten_pieces_take (size : Nat) (xs : List α) (n : Nat) :
    ((List.range n).map (piece size xs)).flatten = xs.take (n * size) := by
  induction n with
  | zero => simp
  | succ n ih =>
    rw [List.range_succ, List.map_append, List.flatten_append, ih, Nat.succ_mul, List.take_add]
    simp [piece]

theorem flatten_pieces (positive : 0 < size) (xs : List α) : (pieces size xs).flatten = xs := by
  have all : xs.length ≤ (xs.length ⌈/⌉ size) * size := by
    rw [Nat.mul_comm]
    exact (ceilDiv_le_iff_le_mul positive).mp (Nat.le_refl _)
  rw [pieces, flatten_pieces_take, List.take_of_length_le all]

end Waloy.Data
