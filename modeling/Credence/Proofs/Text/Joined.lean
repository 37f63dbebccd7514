import Mathlib.Data.List.Basic

/-!
# Joined texts

Pieces of a text with a separator between them.
-/

namespace Credence.Text

variable {separator : Char} {pieces : List (List Char)}

theorem intercalate_cons (separator : Char) (piece : List Char) (pieces : List (List Char)) :
    [separator].intercalate (piece :: pieces) = piece ++ pieces.flatMap (separator :: ·) := by
  induction pieces generalizing piece with
  | nil => simp [List.intercalate]
  | cons next pieces ih =>
      rw [List.flatMap_cons, List.cons_append, ← ih next]
      simp [List.intercalate]

theorem intercalate_cons_of_ne_nil (piece : List Char) (hne : pieces ≠ []) :
    [separator].intercalate (piece :: pieces) =
      piece ++ separator :: [separator].intercalate pieces := by
  obtain ⟨next, pieces, rfl⟩ := List.exists_cons_of_ne_nil hne
  rw [intercalate_cons, intercalate_cons]
  rfl

theorem length_le_intercalate (separator : Char) {piece : List Char} (h : piece ∈ pieces) :
    piece.length ≤ ([separator].intercalate pieces).length := by
  induction pieces with
  | nil => cases h
  | cons first pieces ih =>
      obtain rfl | h := List.mem_cons.mp h
      · rw [intercalate_cons, List.length_append]
        omega
      · have hle := ih h
        rw [intercalate_cons_of_ne_nil first (List.ne_nil_of_mem h), List.length_append,
          List.length_cons]
        omega

end Credence.Text
