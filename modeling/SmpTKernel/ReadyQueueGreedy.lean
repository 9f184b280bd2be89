import SmpTKernel.ReadyQueuePlace

/-!
# What the greedy selection depends on

The selection depends on where the tasks in the list may be put, and on nothing else. It stays the
same when they may be put on fewer processors, as long as the selected tasks still fit together. A
task that was passed over finds each of its processors with a task from further ahead.
-/

namespace SmpTKernel

open Transversal

variable {N N' : Tsk → Finset ℕ} {k numProc : ℕ} {chosen L : List Tsk} {sch : ℕ → Option Tsk}
  {t : Tsk}

theorem greedy_cons (N : Tsk → Finset ℕ) (k : ℕ) (chosen : List Tsk) (t : Tsk) (L : List Tsk) :
    greedy N k chosen (t :: L) = if chosen.length = k then chosen
      else open Classical in if Matchable N (insert t chosen.toFinset) then
        greedy N k (chosen ++ [t]) L
      else greedy N k chosen L := by
  rw [greedy]

theorem greedy_append (post : List Tsk) : ∀ (L chosen : List Tsk),
    greedy N k chosen (L ++ post) = greedy N k (greedy N k chosen L) post := by
  intro L
  induction L with
  | nil => intro chosen; rfl
  | cons t L ih =>
    intro chosen
    rw [List.cons_append, greedy_cons, greedy_cons]
    split_ifs with hfull hmatch
    · exact (greedy_full hfull post).symm
    · exact ih _
    · exact ih _

theorem subset_greedy : ∀ (L chosen : List Tsk), chosen ⊆ greedy N k chosen L := by
  intro L
  induction L with
  | nil => intro chosen; exact List.Subset.refl chosen
  | cons t L ih =>
    intro chosen
    rw [greedy_cons]
    split_ifs
    · exact List.Subset.refl chosen
    · exact List.Subset.trans (List.subset_append_left chosen [t]) (ih _)
    · exact ih _

theorem greedy_sublist : ∀ (L chosen : List Tsk), List.Sublist (greedy N k chosen L)
    (chosen ++ L) := by
  intro L
  induction L with
  | nil =>
    intro chosen
    rw [List.append_nil]
    exact List.Sublist.refl chosen
  | cons t L ih =>
    intro chosen
    rw [greedy_cons]
    split_ifs
    · exact List.sublist_append_left chosen _
    · simpa using ih (chosen ++ [t])
    · exact (ih chosen).trans (List.Sublist.append_left (List.sublist_cons_self t L) chosen)

theorem greedy_congr : ∀ (L chosen : List Tsk), (∀ t ∈ chosen ++ L, N' t = N t) →
    greedy N' k chosen L = greedy N k chosen L := by
  classical
  intro L
  induction L with
  | nil => intro chosen _; rfl
  | cons t L ih =>
    intro chosen h
    have hmatch : Matchable N' (insert t chosen.toFinset) ↔
        Matchable N (insert t chosen.toFinset) := by
      refine exists_congr fun f => and_congr_right fun _ => forall_congr' fun i => ?_
      rw [h i.1]
      rcases Finset.mem_insert.mp i.2 with hi | hi
      · simp [hi]
      · exact List.mem_append_left _ (List.mem_toFinset.mp hi)
    rw [greedy_cons, greedy_cons, if_congr hmatch (ih (chosen ++ [t]) (by simpa using h))
      (ih chosen ?_)]
    intro u hu
    exact h u (List.append_subset.mpr ⟨by simp, by simp⟩ hu)

/-- Fewer places, on which the selected tasks still fit. -/
theorem greedy_of_matchable : ∀ (L chosen : List Tsk), (∀ t ∈ chosen ++ L, N' t ⊆ N t) →
    Matchable N' (greedy N k chosen L).toFinset → greedy N' k chosen L = greedy N k chosen L := by
  intro L
  induction L with
  | nil => intro chosen _ _; rfl
  | cons t L ih =>
    intro chosen h hfit
    have hback : Matchable N' (insert t chosen.toFinset) →
        Matchable N (insert t chosen.toFinset) := by
      rintro ⟨f, hinj, hf⟩
      refine ⟨f, hinj, fun i => h i.1 ?_ (hf i)⟩
      rcases Finset.mem_insert.mp i.2 with hi | hi
      · simp [hi]
      · exact List.mem_append_left _ (List.mem_toFinset.mp hi)
    have hsub : ∀ u ∈ chosen ++ L, N' u ⊆ N u := fun u hu =>
      h u (List.append_subset.mpr ⟨by simp, by simp⟩ hu)
    rw [greedy_cons] at hfit ⊢
    rw [greedy_cons]
    split_ifs with hfull h₁ h₂ h₂
    · rfl
    · rw [if_neg hfull, if_pos h₂] at hfit
      exact ih _ (by simpa using h) hfit
    · exact absurd (hback h₁) h₂
    · rw [if_neg hfull, if_pos h₂] at hfit
      refine absurd (hfit.mono fun u hu => ?_) h₁
      refine List.mem_toFinset.mpr (subset_greedy L _ ?_)
      rcases Finset.mem_insert.mp hu with rfl | hu
      · simp
      · exact List.mem_append_left _ (List.mem_toFinset.mp hu)
    · rw [if_neg hfull, if_neg h₂] at hfit
      exact ih _ hsub hfit

/-! ## Assignments -/

namespace GreedyAssigned

variable (h : GreedyAssigned numProc N L sch)
include h

theorem congr (hN : ∀ t ∈ L, N' t = N t) : GreedyAssigned numProc N' L sch := by
  have hg : greedy N' numProc [] L = greedy N numProc [] L := greedy_congr L [] hN
  refine ⟨fun t => by rw [hg]; exact h.placed t, fun t ht => ?_⟩
  rw [hg] at ht
  rw [hN t ((greedy_sublist L []).subset ht)]
  exact h.once t ht

theorem of_eq {sch' : ℕ → Option Tsk} (he : ∀ i < numProc, sch' i = sch i) :
    GreedyAssigned numProc N L sch' := by
  refine ⟨fun t => ?_, fun t ht => ?_⟩
  · rw [← h.placed t]
    exact exists_congr fun i => and_congr_right fun hi => by rw [he i hi]
  · obtain ⟨i, hi, hti, hN, huniq⟩ := h.once t ht
    exact ⟨i, hi, (he i hi).trans hti, hN, fun j hj hjt => huniq j hj ((he j hj).symm.trans hjt)⟩

theorem sound {i : ℕ} (hi : i < numProc) (ht : sch i = some t) :
    t ∈ L ∧ i ∈ N t ∧ ∀ j < numProc, sch j = some t → j = i := by
  have hmem := (h.placed t).mp ⟨i, hi, ht⟩
  obtain ⟨j, hj, htj, hN, huniq⟩ := h.once t hmem
  obtain rfl := huniq i hi ht
  exact ⟨(greedy_sublist L []).subset hmem, hN, huniq⟩

theorem matchable (hN : ∀ i < numProc, ∀ t, sch i = some t → i ∈ N' t) :
    Matchable N' (greedy N numProc [] L).toFinset := by
  have hplace : ∀ t : ((greedy N numProc [] L).toFinset : Finset Tsk), ∃ i < numProc, sch i =
      some t.1 := fun t =>
    (h.placed t.1).mpr (List.mem_toFinset.mp t.2)
  choose f hlt hf using hplace
  refine ⟨f, fun t u htu => ?_, fun t => hN _ (hlt t) _ (hf t)⟩
  have hu := hf u
  rw [← htu, hf t] at hu
  exact Subtype.ext (Option.some.inj hu)

/-- The tasks may be put on fewer processors, their own among them. -/
theorem restrict (hsub : ∀ t ∈ L, N' t ⊆ N t) (hN : ∀ i < numProc, ∀ t, sch i = some t → i ∈ N' t) :
    GreedyAssigned numProc N' L sch := by
  have hg : greedy N' numProc [] L = greedy N numProc [] L :=
    greedy_of_matchable L [] hsub (h.matchable hN)
  refine ⟨fun t => by rw [hg]; exact h.placed t, fun t ht => ?_⟩
  rw [hg] at ht
  obtain ⟨i, hi, hti, -, huniq⟩ := h.once t ht
  exact ⟨i, hi, hti, hN i hi t hti, huniq⟩

/-- A task that was passed over: each processor it may be put on has a task from further ahead. -/
theorem ahead (nd : L.Nodup) (ht : t ∈ L) (hnot : ∀ i < numProc, sch i ≠ some t) {p : ℕ}
    (hp : p ∈ N t) (hlt : p < numProc) : ∃ u, sch p = some u ∧ List.Sublist [u, t] L := by
  classical
  obtain ⟨a, b, rfl⟩ := List.append_of_mem ht
  have hsub : List.Sublist (greedy N numProc [] a) a := greedy_sublist a []
  have hall := h.placed
  rw [greedy_append] at hall
  have hplaced : ∀ u ∈ greedy N numProc [] a, ∃ i < numProc, sch i = some u := fun u hu =>
    (hall u).mpr (subset_greedy _ _ hu)
  suffices hex : ∃ u ∈ greedy N numProc [] a, sch p = some u by
    obtain ⟨u, hu, hpu⟩ := hex
    refine ⟨u, hpu, ?_⟩
    exact (List.singleton_sublist.mpr (hsub.subset hu)).append (List.Sublist.cons_cons t
      (List.nil_sublist b))
  by_contra hfree
  choose! f hf using hplaced
  have hinj : ∀ u ∈ greedy N numProc [] a, ∀ v ∈ greedy N numProc [] a, f u = f v → u = v :=
    fun u hu v hv huv => by
    have hv := (hf v hv).2
    rw [← huv, (hf u hu).2] at hv
    exact Option.some.inj hv
  have hp' : ∀ u ∈ greedy N numProc [] a, f u ≠ p :=
    fun u hu hup => hfree ⟨u, hu, hup ▸ (hf u hu).2⟩
  rw [greedy_cons] at hall
  split_ifs at hall with hfull hmatch
  · -- as many tasks from further ahead as there are processors
    have himage : (greedy N numProc [] a).toFinset.image f ⊆ (Finset.range numProc).erase p := by
      intro i hi
      obtain ⟨u, hu, rfl⟩ := Finset.mem_image.mp hi
      have hu := List.mem_toFinset.mp hu
      exact Finset.mem_erase.mpr ⟨hp' u hu, Finset.mem_range.mpr (hf u hu).1⟩
    have hcard := Finset.card_le_card himage
    rw [Finset.card_image_of_injOn, List.toFinset_card_of_nodup ((List.nodup_append.mp nd).1.sublist
      hsub), hfull, Finset.card_erase_of_mem (Finset.mem_range.mpr hlt), Finset.card_range] at hcard
    · omega
    · intro u hu v hv huv
      exact hinj u (List.mem_toFinset.mp hu) v (List.mem_toFinset.mp hv) huv
  · obtain ⟨i, hi, hti⟩ := (hall t).mpr (subset_greedy _ _ (by simp))
    exact hnot i hi hti
  · -- the task would have been put on `p`
    have hkept : ∀ u ∈ insert t (greedy N numProc [] a).toFinset, u ≠ t →
        u ∈ greedy N numProc [] a := fun u hu hut =>
      List.mem_toFinset.mp ((Finset.mem_insert.mp hu).resolve_left hut)
    refine hmatch ⟨fun u => if u.1 = t then p else f u.1, fun u v huv => Subtype.ext ?_,
      fun u => ?_⟩
    · dsimp only at huv
      split_ifs at huv with hu hv hv
      · rw [hu, hv]
      · exact absurd huv.symm (hp' v.1 (hkept v.1 v.2 hv))
      · exact absurd huv (hp' u.1 (hkept u.1 u.2 hu))
      · exact hinj u.1 (hkept u.1 u.2 hu) v.1 (hkept v.1 v.2 hv) huv
    · dsimp only
      split_ifs with hu
      · rwa [hu]
      · obtain ⟨hi, hui⟩ := hf u.1 (hkept u.1 u.2 hu)
        exact (h.sound hi hui).2.1

end GreedyAssigned

end SmpTKernel
