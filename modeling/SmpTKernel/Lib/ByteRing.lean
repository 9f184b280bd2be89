import Mathlib.Data.List.Basic
import Mathlib.Data.List.TakeDrop
import Mathlib.Tactic.Common

/-!
# A ring of bytes

An array of `n` cells read as an endless periodic one: position `a` lies in cell `a % n`. `readAt`
reads a string from a position on, `copy` stores one in consecutive cells. A string stored in cells
that do not reach the end of the array is read back from every position over these cells
(`readAt_copy_self`), and a string read from other positions, less than `n` away, is not touched
(`readAt_copy_other`).
-/

namespace ByteRing

variable {α : Type*}

/-- The `len` cells from position `pos` on. -/
def readAt (buf : ℕ → α) (n pos len : ℕ) : List α :=
  (List.range len).map fun i => buf ((pos + i) % n)

/-- Store `src` in the cells from `dst` on. -/
def copy (buf : ℕ → α) (dst : ℕ) (src : List α) : ℕ → α := fun i =>
  if dst ≤ i then (src[i - dst]?).getD (buf i) else buf i

theorem getElem?_readAt (buf : ℕ → α) (n pos len i : ℕ) :
    (readAt buf n pos len)[i]? = if i < len then some (buf ((pos + i) % n)) else none := by
  unfold readAt
  rw [List.getElem?_map]
  by_cases h : i < len
  · rw [List.getElem?_range h, if_pos h]; rfl
  · rw [if_neg h, List.getElem?_eq_none (by simpa using h)]; rfl

theorem readAt_add (buf : ℕ → α) (n pos a b : ℕ) :
    readAt buf n pos (a + b) = readAt buf n pos a ++ readAt buf n (pos + a) b := by
  unfold readAt
  rw [List.range_add, List.map_append, List.map_map]
  congr 1
  refine List.map_congr_left fun i _ => ?_
  show buf _ = buf _
  rw [Nat.add_assoc]

/-- Cells of a string that does not reach the end of the array. -/
theorem cell_eq {n pos len i : ℕ} (h : pos % n + len ≤ n) (hi : i < len) :
    (pos + i) % n = pos % n + i := by
  rw [← Nat.mod_add_mod pos n i, Nat.mod_eq_of_lt (by omega)]

/-- A string that does not reach the end of the array. -/
theorem readAt_eq (buf : ℕ → α) {n pos len : ℕ} (h : pos % n + len ≤ n) :
    readAt buf n pos len = (List.range len).map fun i => buf (pos % n + i) := by
  unfold readAt
  refine List.map_congr_left fun i hi => ?_
  have := List.mem_range.mp hi
  rw [cell_eq h this]

theorem readAt_copy_self (buf : ℕ → α) {n pos : ℕ} {src : List α} (h : pos % n + src.length ≤ n) :
    readAt (copy buf (pos % n) src) n pos src.length = src := by
  refine List.ext_getElem? fun i => ?_
  rw [getElem?_readAt]
  by_cases hi : i < src.length
  · rw [if_pos hi, cell_eq h hi]
    unfold copy
    rw [if_pos (by omega), Nat.add_sub_cancel_left, List.getElem?_eq_getElem hi]
    rfl
  · rw [if_neg hi, List.getElem?_eq_none (by omega)]

/-- Cells outside the stored string are left alone. -/
theorem copy_of_lt (buf : ℕ → α) {dst i : ℕ} (src : List α) (h : i < dst) :
    copy buf dst src i = buf i :=
  if_neg (by omega)

theorem copy_of_ge (buf : ℕ → α) {dst i : ℕ} {src : List α} (h : dst + src.length ≤ i) :
    copy buf dst src i = buf i := by
  unfold copy
  rw [if_pos (by omega), List.getElem?_eq_none (by omega)]
  rfl

/-- Two positions less than a round apart lie in different cells. -/
theorem mod_ne_of_lt {n a b : ℕ} (h : a < b) (hn : b < a + n) : a % n ≠ b % n := by
  intro e
  have hd := Nat.sub_mod_eq_zero_of_mod_eq e.symm
  rw [Nat.mod_eq_of_lt (by omega)] at hd
  omega

/-- A string read from other positions is not touched. -/
theorem readAt_copy_other (buf : ℕ → α) {n pos len w : ℕ} {src : List α}
    (hw : w % n + src.length ≤ n) (h : pos + len ≤ w) (hr : w + src.length ≤ pos + n) :
    readAt (copy buf (w % n) src) n pos len = readAt buf n pos len := by
  unfold readAt
  refine List.map_congr_left fun i hi => ?_
  have hi := List.mem_range.mp hi
  by_cases hlt : (pos + i) % n < w % n
  · exact copy_of_lt buf src hlt
  · refine copy_of_ge buf ?_
    by_contra hin
    -- the cell would be that of position `w + k` for some `k` inside the stored string
    have e : (pos + i) % n = (w + ((pos + i) % n - w % n)) % n := by
      rw [cell_eq hw (by omega)]
      omega
    exact mod_ne_of_lt (by omega) (by omega) e

end ByteRing
