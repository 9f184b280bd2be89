import Mathlib.Data.Finset.Card

/-!
# Values written along a path

A process writes values at finitely many points, one after the other. A write is followed by a write
of the same value at a point with a larger one, or by any write at a point that has the value just
overwritten, if that one is not above the value written. Such a process comes to an end, also where
the path of the points goes in circles.
-/

namespace Descent

variable {α : Type*} {F : Finset α} {val : α → ℕ} {a b : α} {new new' : ℕ}

/-- After `new` at `a` the process goes on with `new'` at `b`; `val` is from before, `val'` from
after the write. -/
structure Follows (val val' : α → ℕ) (a : α) (new : ℕ) (b : α) (new' : ℕ) : Prop where
  ne : val' b ≠ new'
  step : new < val' b ∧ new' = new ∨ val' b = val a ∧ val' b ≤ new

/-- What drops with every write. While the value written is the smaller one, it goes on to points
above it. Otherwise the value overwritten becomes rarer, until a smaller value is written. -/
def rank (F : Finset α) (val : α → ℕ) (a : α) (new : ℕ) : ℕ :=
  if new < val a then (F.filter fun x => new < val x).card
  else (F.filter fun x => val x = val a).card + F.card + 1

theorem rank_le_of_lt (h : new < val a) : rank F val a new ≤ F.card := by
  unfold rank
  rw [if_pos h]
  exact Finset.card_filter_le _ _

variable [DecidableEq α]

/-- A write takes its point out of those with a property that the new value has not. -/
theorem card_update_lt {p : ℕ → Prop} [DecidablePred p] (ha : a ∈ F) (hold : p (val a))
    (hnew : ¬p new) :
    (F.filter fun x => p (Function.update val a new x)).card < (F.filter fun x =>
      p (val x)).card := by
  refine Finset.card_lt_card (Finset.ssubset_iff_subset_ne.mpr ⟨fun x hx => ?_, fun he => ?_⟩)
  · obtain ⟨hx, hp⟩ := Finset.mem_filter.mp hx
    refine Finset.mem_filter.mpr ⟨hx, ?_⟩
    rw [Function.update_apply] at hp
    split_ifs at hp with hxa
    · exact absurd hp hnew
    · exact hp
  · have hmem : a ∈ F.filter fun x => p (val x) := Finset.mem_filter.mpr ⟨ha, hold⟩
    rw [← he, Finset.mem_filter, Function.update_self] at hmem
    exact hnew hmem.2

theorem rank_lt (ha : a ∈ F) (hne : val a ≠ new)
    (h : Follows val (Function.update val a new) a new b new') :
    rank F (Function.update val a new) b new' < rank F val a new := by
  rcases lt_or_gt_of_ne hne with hlow | hhigh
  · -- the value became larger, so what it was becomes rarer
    have hrank : rank F val a new = (F.filter fun x => val x = val a).card + F.card + 1 :=
      if_neg hlow.not_gt
    rw [hrank]
    by_cases hb : new' < Function.update val a new b
    · have hle := rank_le_of_lt (F := F) hb
      omega
    · have hkept : Function.update val a new b = val a := by
        rcases h.step with ⟨hlt, rfl⟩ | ⟨hval, -⟩
        · exact absurd hlt hb
        · exact hval
      unfold rank
      rw [if_neg hb, hkept]
      have hcard := card_update_lt (p := fun v => v = val a) ha rfl hne.symm
      omega
  · -- the value became smaller, and goes on to larger ones only
    rcases h.step with ⟨hlt, rfl⟩ | ⟨hval, hle⟩
    · unfold rank
      rw [if_pos hhigh, if_pos hlt]
      exact card_update_lt (p := fun v => new' < v) ha hhigh (lt_irrefl new')
    · exact absurd (hval ▸ hle) hhigh.not_ge

end Descent
