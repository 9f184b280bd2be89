import Mathlib.Data.List.Basic
import Mathlib.Tactic.Common

/-!
# Tokens

The tokens of a list are its longest pieces without separators.
-/

namespace Tokens

variable {α : Type*} {sep : α → Bool} {a : α} {w l : List α}

/-- The tokens of a list. -/
def tokens (sep : α → Bool) (l : List α) : List (List α) := (l.splitOnP sep).filter (· ≠ [])

@[simp] theorem tokens_nil : tokens sep [] = [] := by
  unfold tokens
  rw [List.splitOnP_nil]
  simp

theorem tokens_cons_of_sep (h : sep a = true) : tokens sep (a :: l) = tokens sep l := by
  unfold tokens
  have := List.splitOnP_append_cons (p := sep) [] l h
  rw [List.nil_append] at this
  rw [this, List.splitOnP_nil]
  simp

/-- A piece without separators is a token where one follows or the list ends. -/
theorem tokens_append (hw : w ≠ []) (hsep : ∀ x ∈ w, sep x = false)
    (hl : ∀ x ∈ l.head?, sep x = true) : tokens sep (w ++ l) = w :: tokens sep l := by
  cases l with
  | nil =>
    unfold tokens
    rw [List.append_nil, List.splitOnP_eq_singleton hsep, List.splitOnP_nil]
    simp [hw]
  | cons a l =>
    have ha : sep a = true := hl a rfl
    rw [tokens_cons_of_sep ha]
    unfold tokens
    rw [List.splitOnP_append_cons w l ha, List.splitOnP_eq_singleton hsep, List.filter_append]
    simp [hw]

end Tokens
