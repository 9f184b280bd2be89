import SmpTKernel.ReadyQueueInv
import SmpTKernel.ResourceGroup

/-!
# Searches of bit strings and their callers

When the searches of `bitop.c` are right, and what `get_next_tcb` and `_tk_cre_res` find with them.
-/

namespace SmpTKernel

open LinkRing

/-- The first task of the next priority behind `p` whose queue is in use. -/
def NextInUse (Q : QHead → List Tsk) (p : ℕ) (r : Option Tsk) : Prop :=
  (r = none ∧ ∀ q, p < q → q < NUM_PRI → Q (.rdy q) = []) ∨
    ∃ q, p < q ∧ q < NUM_PRI ∧ (∀ j, p < j → j < q → Q (.rdy j) = []) ∧
      ∃ u l, Q (.rdy q) = u :: l ∧ r = some u

variable {live : QHead → Prop} {Q : QHead → List Tsk} {c : Core}

/-- Behind the last task of a priority comes the next priority in use. -/
theorem ReadyLinks.getNextTcb_last (r : ReadyLinks live Q c) (hm : Marks c.ready_queue.bitmap Q)
    {p : ℕ} {t : Tsk} (ht : (Q (.rdy p)).getLast? = some t) : NextInUse Q p (getNextTcb c t) := by
  obtain ⟨a, ha⟩ := List.getLast?_eq_some_iff.mp ht
  have hmem : t ∈ Q (.rdy p) := List.mem_of_getLast? ht
  have hnext := r.rings.next_elem (a := a) (b := []) ha
  rw [r.getNextTcb_of_next hm (r.priority p t hmem) (r.lt_of_mem hmem) hnext, List.nil_append]
  by_cases hex : ∃ i, p + 1 + i < NUM_PRI ∧ Q (.rdy (p + 1 + i)) ≠ []
  · obtain ⟨hi, hne⟩ := Nat.find_spec hex
    have hempty : ∀ j < Nat.find hex, Q (.rdy (p + 1 + j)) = [] := by
      intro j hj
      by_contra c
      exact Nat.find_min hex hj ⟨by omega, c⟩
    generalize Nat.find hex = i at hi hne hempty
    obtain ⟨u, l, hul⟩ := List.exists_cons_of_ne_nil hne
    refine Or.inr ⟨p + 1 + i, by omega, hi, fun j hj hji => ?_, u, l, hul, ?_⟩
    · have := hempty (j - (p + 1)) (by omega)
      rwa [show p + 1 + (j - (p + 1)) = j by omega] at this
    · rw [head?_after hi hempty hne]
      show (Q (.rdy (p + 1 + i))).head? = some u
      rw [hul]
      rfl
  · push Not at hex
    refine Or.inl ⟨?_, fun q hpq hq => ?_⟩
    · rw [after_eq_nil fun j hj => hex j (by omega)]
      rfl
    · have := hex (q - (p + 1)) (by omega)
      rwa [show p + 1 + (q - (p + 1)) = q by omega] at this

/-- **Bit search.** The searches find the first bit in the bytes they are given exactly when their
positions fit a `W`; so `get_next_tcb` finds the next priority in use and `_tk_cre_res` the least
free ID. -/
theorem bitsearch_fits_iff (base : Bytes) (offset : ℕ) {width : ℕ} (hw : width < 2 ^ 31) :
    ((∃ turns, SearchRight false base offset width (tstdlibBitsearch0 turns base offset width)) ↔
        SearchFits false base offset width) ∧
      ((∃ turns, SearchRight true base offset width (tstdlibBitsearch1 turns base offset width)) ↔
        SearchFits true base offset width) ∧
      (∀ (live : QHead → Prop) (Q : QHead → List Tsk) (c : Core), ReadyLinks live Q c →
        Marks c.ready_queue.bitmap Q → ∀ p t, (Q (.rdy p)).getLast? = some t →
          NextInUse Q p (getNextTcb c t)) ∧
      ∀ g : ResGroup, 0 ≤ g.max_resid → g.max_resid < 2 ^ 31 →
        SearchFits false g.resid_bitmap 0 g.max_resid.toNat →
          ∃ turns r, tkCreRes turns g = some r ∧ CreResRight g r := by
  refine ⟨searchRight_iff looks_tests0 hw, searchRight_iff looks_tests1 hw,
    fun live Q c r hm p t ht => r.getNextTcb_last hm ht, fun g h0 hmax fits => ?_⟩
  exact ⟨_, tkCreRes_least hmax fits (Int.self_le_toNat _) h0⟩

theorem bitsearch_fits_three : (10 : ℕ) < 2 ^ 31 ∧
    ∃ turns, SearchRight true (fun _ => 0x01) (3 : ℕ) 10
      (tstdlibBitsearch1 turns (fun _ => 0x01) (3 : ℕ) (10 : ℕ)) :=
  ⟨by norm_num, (bitsearch_fits_iff (fun _ => 0x01) 3 (by norm_num)).2.1.mpr (Or.inl (by norm_num))⟩

/-- No bit is set up to position `2 ^ 31 - 1`, and the search goes on behind it. -/
theorem bitsearch_wraps :
    ¬∃ turns, SearchRight true (fun n => if n = 2 ^ 28 then 0x01 else 0) (0 : ℕ) (2 ^ 31 - 1)
      (tstdlibBitsearch1 turns (fun n => if n = 2 ^ 28 then 0x01 else 0) (0 : ℕ)
        ((2 ^ 31 - 1 : ℕ) : ℤ)) := by
  refine (searchRight_iff looks_tests1 (by norm_num)).not.mpr ?_
  rintro (h | ⟨p, hp, hset⟩)
  · norm_num at h
  · have hbyte : p / 8 ≠ 2 ^ 28 := by omega
    rw [zero_add] at hset
    unfold bitAt at hset
    dsimp only at hset
    rw [if_neg hbyte] at hset
    simp at hset

end SmpTKernel
