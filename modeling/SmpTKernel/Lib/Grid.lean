import Mathlib.Order.Bounds.Basic
import Mathlib.Data.Int.ModEq
import Mathlib.Tactic.Linarith
import Mathlib.Tactic.Ring

/-!
# Grids of times

What happens periodically happens at the times `t`, `t + p`, `t + 2 * p` and so on. Whoever is late
leaves out the times that are over, and goes on at the next one.
-/

namespace Grid

/-- The times after `t` that are later than `now`. -/
def later (t p now : ℤ) : Set ℤ := {x | ∃ k : ℕ, 1 ≤ k ∧ x = t + k * p ∧ now < x}

variable {t p now x y : ℤ}

/-- In time: the next time is one period later. -/
theorem isLeast_next (hp : 0 < p) (h : now < t + p) : IsLeast (later t p now) (t + p) := by
  refine ⟨⟨1, Nat.le_refl 1, by simp, h⟩, ?_⟩
  rintro x ⟨k, hk, rfl, -⟩
  have hmul : 1 * p ≤ k * p := Int.mul_le_mul_of_nonneg_right (by exact_mod_cast hk) hp.le
  linarith

/-- Late: the periods that are over are counted by division. -/
theorem isLeast_skip (hp : 0 < p) (h : t ≤ now) :
    IsLeast (later t p now) (t + ((now - t) / p + 1) * p) := by
  have hdiv := Int.mul_ediv_add_emod (now - t) p
  have hlt := Int.emod_lt_of_pos (now - t) hp
  have hnonneg := Int.emod_nonneg (now - t) hp.ne'
  obtain ⟨n, hn⟩ := Int.eq_ofNat_of_zero_le (Int.ediv_nonneg (show 0 ≤ now - t by linarith) hp.le)
  rw [hn] at hdiv ⊢
  refine ⟨⟨n + 1, Nat.le_add_left 1 n, by push_cast; rfl, by linarith⟩, ?_⟩
  rintro x ⟨k, -, rfl, hx⟩
  have hk : (n : ℤ) < k := by
    by_contra hc
    have hmul : (k : ℤ) * p ≤ n * p := Int.mul_le_mul_of_nonneg_right (Int.not_lt.mp hc) hp.le
    linarith
  have hmul : ((n : ℤ) + 1) * p ≤ k * p := Int.mul_le_mul_of_nonneg_right hk hp.le
  linarith

theorem modEq_of_mem (h : x ∈ later t p now) : x ≡ t [ZMOD p] := by
  obtain ⟨k, -, rfl, -⟩ := h
  exact Int.modEq_iff_dvd.mpr ⟨-k, by ring⟩

theorem lt_of_mem (hp : 0 < p) (h : x ∈ later t p now) : t < x := by
  obtain ⟨k, hk, rfl, -⟩ := h
  have hmul : 1 * p ≤ k * p := Int.mul_le_mul_of_nonneg_right (by exact_mod_cast hk) hp.le
  linarith

theorem exists_isLeast (hp : 0 < p) (t now : ℤ) : ∃ x, IsLeast (later t p now) x := by
  by_cases h : now < t + p
  · exact ⟨_, isLeast_next hp h⟩
  · exact ⟨_, isLeast_skip hp (show t ≤ now by linarith)⟩

/-- The next time is at most one period off. -/
theorem le_of_isLeast (hp : 0 < p) (h : IsLeast (later t p now) x) : x ≤ max t now + p := by
  by_cases hn : now < t + p
  · have hle := h.2 (isLeast_next hp hn).1
    have := le_max_left t now
    linarith
  · have hle := h.2 (isLeast_skip hp (show t ≤ now by linarith)).1
    have hdiv := Int.mul_ediv_add_emod (now - t) p
    have hnonneg := Int.emod_nonneg (now - t) hp.ne'
    have := le_max_right t now
    linarith

end Grid
