import SmpTKernel.ReadyQueueSelect

/-!
# Every kept task is placed

The tasks kept by the selection can all be placed at once. `multi_core_assign` pairs tasks and
processors of least degree, which never closes the way for the others (`Matchable.pair`);
`single_core_assign` is used when every kept task names one processor or all of them. Both leave
no task over, so `ready_queue_top` places exactly the tasks of the greedy selection
(`readyQueueTop_greedy`).
-/

namespace SmpTKernel

open LinkRing Transversal

variable {numProc : ℕ} {c : Core} {u : Cpus} {N : Tsk → Finset ℕ} {K : List Tsk}
  {sch : ℕ → Option Tsk} {rest : Finset Tsk}

/-- A partial placement of the tasks `K`: those in `rest` are still to be placed, the others are on
exactly one processor, one they may run on. -/
structure Placing (numProc : ℕ) (N : Tsk → Finset ℕ) (K : List Tsk) (sch : ℕ → Option Tsk)
    (rest : Finset Tsk) : Prop where
  rest_subset : ∀ t ∈ rest, t ∈ K
  sound : ∀ i < numProc, ∀ t, sch i = some t → t ∈ K ∧ t ∉ rest ∧ i ∈ N t
  once : ∀ i < numProc, ∀ i' < numProc, ∀ t, sch i = some t → sch i' = some t → i = i'
  complete : ∀ t ∈ K, t ∉ rest → ∃ i < numProc, sch i = some t

theorem placing_init : Placing numProc N K (fun _ => none) K.toFinset where
  rest_subset _ h := List.mem_toFinset.mp h
  sound _ _ _ h := nomatch h
  once _ _ _ _ _ h := nomatch h
  complete _ h hr := absurd (List.mem_toFinset.mpr h) hr

/-- One more task is placed on a free processor. -/
theorem Placing.place (h : Placing numProc N K sch rest) {t : Tsk} {i : ℕ} (ht : t ∈ rest)
    (hi : i < numProc) (hfree : sch i = none) (hN : i ∈ N t) :
    Placing numProc N K (Function.update sch i (some t)) (rest.erase t) := by
  have hother : ∀ i', sch i' ≠ some t ∨ ¬i' < numProc := by
    intro i'
    by_contra c
    push Not at c
    exact (h.sound i' c.2 t c.1).2.1 ht
  refine ⟨fun x hx => h.rest_subset x (Finset.mem_of_mem_erase hx), ?_, ?_, ?_⟩
  · intro i' hi' x hx
    by_cases e : i' = i
    · subst e
      rw [Function.update_self, Option.some.injEq] at hx
      subst hx
      exact ⟨h.rest_subset t ht, Finset.notMem_erase t rest, hN⟩
    · rw [Function.update_of_ne e] at hx
      obtain ⟨h₁, h₂, h₃⟩ := h.sound i' hi' x hx
      exact ⟨h₁, fun c => h₂ (Finset.mem_of_mem_erase c), h₃⟩
  · intro i₁ hi₁ i₂ hi₂ x hx₁ hx₂
    rw [Function.update_apply] at hx₁ hx₂
    split_ifs at hx₁ hx₂ with e₁ e₂ e₂
    · rw [e₁, e₂]
    · rw [Option.some.injEq] at hx₁
      subst hx₁
      exact absurd hx₂ ((hother i₂).resolve_right (not_not.mpr hi₂))
    · rw [Option.some.injEq] at hx₂
      subst hx₂
      exact absurd hx₁ ((hother i₁).resolve_right (not_not.mpr hi₁))
    · exact h.once i₁ hi₁ i₂ hi₂ x hx₁ hx₂
  · intro x hx hxr
    by_cases e : x = t
    · exact ⟨i, hi, by rw [Function.update_self, e]⟩
    · obtain ⟨i', hi', hx'⟩ := h.complete x hx fun c => hxr (Finset.mem_erase.mpr ⟨e, c⟩)
      refine ⟨i', hi', ?_⟩
      rw [Function.update_of_ne, hx']
      rintro rfl
      rw [hfree] at hx'
      exact nomatch hx'

/-- Two kept tasks are never confined to the same processor. -/
theorem Matchable.ne_of_confined (h : Matchable N K.toFinset) {t t' : Tsk} {i : ℕ} (ht : t ∈ K)
    (ht' : t' ∈ K) (hN : N t = {i}) (hN' : N t' = {i}) : t = t' := by
  obtain ⟨f, hf, hfN⟩ := h
  have e₁ := hfN ⟨t, List.mem_toFinset.mpr ht⟩
  have e₂ := hfN ⟨t', List.mem_toFinset.mpr ht'⟩
  rw [hN, Finset.mem_singleton] at e₁
  rw [hN', Finset.mem_singleton] at e₂
  exact congrArg Subtype.val (hf (e₁.trans e₂.symm))

/-! ## `multi_core_assign` -/

/-- The processors of `t` that are still free. -/
def freeOf (N : Tsk → Finset ℕ) (sch : ℕ → Option Tsk) (t : Tsk) : Finset ℕ :=
  (N t).filter fun i => sch i = none

theorem mem_freeOf {t : Tsk} {i : ℕ} : i ∈ freeOf N sch t ↔ i ∈ N t ∧ sch i = none :=
  Finset.mem_filter

/-- The arrays while the tasks `rest` are still to be placed. The count of a column is right as long
as its processor is free. -/
structure MultiInv (numProc : ℕ) (N : Tsk → Finset ℕ) (K : List Tsk) (s : Assign)
    (rest : Finset Tsk) : Prop where
  placing : Placing numProc N K s.sch rest
  top_bit_none : ∀ k, K[k]? = none → s.top_bit k = 0
  top_bit_lt : ∀ k, s.top_bit k < 2 ^ numProc
  top_bit : ∀ k t, K[k]? = some t →
    procs numProc (s.top_bit k) = if t ∈ rest then freeOf N s.sch t else ∅
  bit_cnt : ∀ j < numProc, s.sch j = none → s.bit_cnt j = (users N rest j).card
  matchable : Matchable (freeOf N s.sch) rest

section Multi

variable {s : Assign} {top : ℕ → Option Tsk}

/-- What `try_assign` tests. -/
theorem MultiInv.canAssign_iff (h : MultiInv numProc N K s rest)
    (htop : ∀ k < numProc, top k = K[k]?) {idx pr : ℕ} (hidx : idx < numProc) (hpr : pr < numProc)
    (cmp : Option Tsk) :
    canAssign top s idx pr cmp = true ↔
      ∃ t, K[idx]? = some t ∧ t ∈ rest ∧ pr ∈ freeOf N s.sch t ∧ cmp = some t := by
  unfold canAssign
  rw [decide_eq_true_eq, hasBit_eq_testBit, htop idx hidx]
  constructor
  · rintro ⟨hb, hf, hc⟩
    cases hK : K[idx]? with
    | none =>
      rw [h.top_bit_none idx hK, Nat.zero_testBit] at hb
      exact absurd hb Bool.false_ne_true
    | some t =>
      have hp := h.top_bit idx t hK
      have hm : pr ∈ procs numProc (s.top_bit idx) := mem_procs.mpr ⟨hpr, hb⟩
      rw [hp] at hm
      split_ifs at hm with ht
      · exact ⟨t, rfl, ht, hm, hc.trans hK⟩
      · exact absurd hm (Finset.notMem_empty pr)
  · rintro ⟨t, hK, ht, hp, hc⟩
    have hm := h.top_bit idx t hK
    rw [if_pos ht] at hm
    rw [← hm] at hp
    refine ⟨(mem_procs.mp hp).2, ?_, hc.trans hK.symm⟩
    rw [hm] at hp
    exact (mem_freeOf.mp hp).2

/-- A column or row that counts `c` and yields no pair has nothing left to pair. -/
theorem tryColumnRow_none {cmp : ℕ → ℕ → Option Tsk} {d j : ℕ}
    (h : tryColumnRow numProc top s cmp d j = none) :
    (s.bit_cnt j = d → ∀ i < numProc, canAssign top s i j (cmp i j) = false) ∧
      (cntBits numProc (s.top_bit j) = d → ∀ i < numProc,
        canAssign top s j i (cmp j i) = false) := by
  unfold tryColumnRow at h
  rw [Option.orElse_eq_orElse, Option.orElse_eq_or, Option.or_eq_none_iff] at h
  obtain ⟨h₁, h₂⟩ := h
  refine ⟨fun hd i hi => ?_, fun hd i hi => ?_⟩
  · rw [if_pos hd, Option.map_eq_none_iff, List.find?_eq_none] at h₁
    simpa using h₁ i (List.mem_range.mpr hi)
  · rw [if_pos hd, Option.map_eq_none_iff, List.find?_eq_none] at h₂
    simpa using h₂ i (List.mem_range.mpr hi)

theorem tryColumnRow_some {cmp : ℕ → ℕ → Option Tsk} {d j : ℕ} {x : ℕ × ℕ} (hj : j < numProc)
    (h : tryColumnRow numProc top s cmp d j = some x) :
    x.1 < numProc ∧ x.2 < numProc ∧ canAssign top s x.1 x.2 (cmp x.1 x.2) = true ∧
      (s.bit_cnt x.2 = d ∨ cntBits numProc (s.top_bit x.1) = d) := by
  unfold tryColumnRow at h
  rw [Option.orElse_eq_orElse, Option.orElse_eq_or, Option.or_eq_some_iff] at h
  rcases h with h | ⟨-, h⟩
  · split_ifs at h with hd
    obtain ⟨i, hi, rfl⟩ := Option.map_eq_some_iff.mp h
    have hcan := List.find?_some hi
    exact ⟨List.mem_range.mp (List.mem_of_find?_eq_some hi), hj, hcan, Or.inl hd⟩
  · split_ifs at h with hd
    obtain ⟨i, hi, rfl⟩ := Option.map_eq_some_iff.mp h
    have hcan := List.find?_some hi
    exact ⟨hj, List.mem_range.mp (List.mem_of_find?_eq_some hi), hcan, Or.inr hd⟩

/-- A count that yields nothing is the degree of no column or row in use. -/
theorem MultiInv.count_ne (h : MultiInv numProc N K s rest) (hn : numProc ≤ MAX_PROC)
    (htop : ∀ k < numProc, top k = K[k]?) (hlen : K.length ≤ numProc)
    (hNn : ∀ t, N t ⊆ Finset.range numProc) {d : ℕ}
    (hd : (List.range numProc).findSome?
      (tryColumnRow numProc top s (fun idx _ => top idx) d) = none)
    {t : Tsk} (ht : t ∈ rest) {j : ℕ} (hj : j ∈ freeOf N s.sch t) :
    (freeOf N s.sch t).card ≠ d ∧ (users (freeOf N s.sch) rest j).card ≠ d := by
  obtain ⟨idx, hidx, hK⟩ := List.getElem_of_mem (h.placing.rest_subset t ht)
  have hK : K[idx]? = some t := by rw [List.getElem?_eq_getElem hidx, hK]
  obtain ⟨hjN, hjf⟩ := mem_freeOf.mp hj
  have hjn : j < numProc := Finset.mem_range.mp (hNn t hjN)
  have hcan : canAssign top s idx j (top idx) = true :=
    (h.canAssign_iff htop (by omega) hjn _).mpr ⟨t, hK, ht, hj, by rw [htop idx (by omega), hK]⟩
  have hnone := fun k (hk : k < numProc) =>
    tryColumnRow_none (List.findSome?_eq_none_iff.mp hd k (List.mem_range.mpr hk))
  constructor
  · intro e
    have hrow := h.top_bit idx t hK
    rw [if_pos ht] at hrow
    have := (hnone idx (by omega)).2 (by rw [cntBits_eq_card hn (h.top_bit_lt idx), hrow, e]) j hjn
    rw [hcan] at this
    exact Bool.false_ne_true this.symm
  · intro e
    have husers : users (freeOf N s.sch) rest j = users N rest j := by
      refine Finset.filter_congr fun x _ => ?_
      rw [mem_freeOf]
      exact and_iff_left hjf
    have := (hnone j hjn).1 (by rw [h.bit_cnt j hjn hjf, ← husers, e]) idx (by omega)
    rw [hcan] at this
    exact Bool.false_ne_true this.symm

/-- **The next pair.** While tasks are left the search finds a pair, at a row or column of least
degree. -/
theorem MultiInv.reAssign (h : MultiInv numProc N K s rest) (hn : numProc ≤ MAX_PROC)
    (htop : ∀ k < numProc, top k = K[k]?) (hlen : K.length ≤ numProc)
    (hNn : ∀ t, N t ⊆ Finset.range numProc) (hne : rest.Nonempty) :
    ∃ idx pr t, reAssign numProc u top s = some (idx, pr) ∧ idx < numProc ∧ pr < numProc ∧
      K[idx]? = some t ∧ t ∈ rest ∧ pr ∈ freeOf N s.sch t ∧
      Matchable (fun x => (freeOf N s.sch x).erase pr) (rest.erase t) := by
  -- a count below the degree of every row and column in use is passed over
  have hpos : ∀ x ∈ rest, ∃ l, l ∈ freeOf N s.sch x := fun x hx => h.matchable.nonempty hx
  have hbi : (rest.biUnion (freeOf N s.sch)).card ≤ numProc := by
    have : rest.biUnion (freeOf N s.sch) ⊆ Finset.range numProc := fun l hl => by
      obtain ⟨x, -, hx⟩ := Finset.mem_biUnion.mp hl
      exact hNn x (mem_freeOf.mp hx).1
    simpa using Finset.card_le_card this
  rcases hr : SmpTKernel.reAssign numProc u top s with _ | ⟨idx, pr⟩
  · exfalso
    obtain ⟨t, ht⟩ := hne
    obtain ⟨l, hl⟩ := hpos t ht
    have hcard : 1 ≤ (freeOf N s.sch t).card := Finset.card_pos.mpr ⟨l, hl⟩
    have hle : (freeOf N s.sch t).card ≤ numProc :=
      (Finset.card_le_card (Finset.subset_biUnion_of_mem _ ht)).trans hbi
    unfold SmpTKernel.reAssign at hr
    have hd := List.findSome?_eq_none_iff.mp hr (freeOf N s.sch t).card
      (List.mem_range'_1.mpr ⟨hcard, by omega⟩)
    rw [Option.orElse_eq_orElse, Option.orElse_eq_or, Option.or_eq_none_iff] at hd
    exact (h.count_ne hn htop hlen hNn hd.2 ht hl).1 rfl
  · unfold SmpTKernel.reAssign at hr
    obtain ⟨l₁, d, l₂, hl, hd, hbefore⟩ := List.findSome?_eq_some_iff.mp hr
    have hmin : ∀ e, 1 ≤ e → e < d → e ∈ l₁ := by
      intro e he hed
      have hdm : d ∈ List.range' 1 numProc := by rw [hl]; simp
      have hem : e ∈ List.range' 1 numProc :=
        List.mem_range'_1.mpr ⟨he, by have := List.mem_range'_1.mp hdm; omega⟩
      rw [hl, List.mem_append, List.mem_cons] at hem
      have hsorted : (List.range' 1 numProc).Pairwise (· < ·) := List.pairwise_lt_range'
      rw [hl] at hsorted
      rcases hem with hem | rfl | hem
      · exact hem
      · exact absurd hed (lt_irrefl _)
      · have := (List.pairwise_cons.mp (List.pairwise_append.mp hsorted).2.1).1 e hem
        omega
    have hpass : ∀ e, 1 ≤ e → e < d → (List.range numProc).findSome?
        (tryColumnRow numProc top s (fun idx _ => top idx) e) = none := by
      intro e he hed
      have := hbefore e (hmin e he hed)
      rw [Option.orElse_eq_orElse, Option.orElse_eq_or, Option.or_eq_none_iff] at this
      exact this.2
    have hrow : ∀ x ∈ rest, d ≤ (freeOf N s.sch x).card := by
      intro x hx
      by_contra hlt
      obtain ⟨l, hl⟩ := hpos x hx
      exact (h.count_ne hn htop hlen hNn
        (hpass _ (Finset.card_pos.mpr ⟨l, hl⟩) (not_le.mp hlt)) hx hl).1 rfl
    have hcol : ∀ x ∈ rest, ∀ l ∈ freeOf N s.sch x, d ≤ (users (freeOf N s.sch) rest l).card := by
      intro x hx l hl
      by_contra hlt
      exact (h.count_ne hn htop hlen hNn
        (hpass _ (Finset.card_pos.mpr ⟨x, mem_users.mpr ⟨hx, hl⟩⟩) (not_le.mp hlt)) hx hl).2 rfl
    obtain ⟨cmp, j, hj, htry⟩ : ∃ (cmp : ℕ → ℕ → Option Tsk) (j : ℕ), j < numProc ∧
        tryColumnRow numProc top s cmp d j = some (idx, pr) := by
      rw [Option.orElse_eq_orElse, Option.orElse_eq_or, Option.or_eq_some_iff] at hd
      rcases hd with hd | ⟨-, hd⟩
      · obtain ⟨j, hj, hjt⟩ := List.exists_of_findSome?_eq_some hd
        exact ⟨_, j, List.mem_range.mp hj, hjt⟩
      · obtain ⟨j, hj, hjt⟩ := List.exists_of_findSome?_eq_some hd
        exact ⟨_, j, List.mem_range.mp hj, hjt⟩
    obtain ⟨hidx, hpr, hcan, hdeg⟩ := tryColumnRow_some hj htry
    obtain ⟨t, hK, ht, hfree, -⟩ := (h.canAssign_iff htop hidx hpr _).mp hcan
    refine ⟨idx, pr, t, rfl, hidx, hpr, hK, ht, hfree,
      h.matchable.pair ht hfree hrow hcol ?_ (hbi.trans hn)⟩
    rcases hdeg with hdeg | hdeg
    · right
      have husers : users (freeOf N s.sch) rest pr = users N rest pr := by
        refine Finset.filter_congr fun x _ => ?_
        rw [mem_freeOf]
        exact and_iff_left (mem_freeOf.mp hfree).2
      rw [husers, ← h.bit_cnt pr hpr (mem_freeOf.mp hfree).2]
      exact hdeg
    · left
      have hb := h.top_bit idx t hK
      rw [if_pos ht] at hb
      rw [← hb, ← cntBits_eq_card hn (h.top_bit_lt idx)]
      exact hdeg

theorem procs_dropBit (hn : numProc ≤ MAX_PROC) (bits : ℕ → ℕ) (no : ℕ) {k : ℕ} (hk : k < numProc) :
    procs numProc (dropBit numProc bits no k) = (procs numProc (bits k)).erase no := by
  unfold dropBit
  rw [if_pos hk]
  ext i
  rw [Finset.mem_erase, mem_procs, mem_procs, Nat.testBit_and, Nat.testBit_xor,
    show (0xFFFFFFFF : ℕ) = 2 ^ 32 - 1 from rfl, Nat.testBit_two_pow_sub_one, Nat.one_shiftLeft,
    Nat.testBit_two_pow]
  by_cases hi : i < numProc
  · have h32 : i < 32 := lt_of_lt_of_le hi (hn.trans (by norm_num))
    by_cases e : no = i
    · simp [h32, e]
    · simp [h32, hi, e, Ne.symm e]
  · simp [hi]

theorem dropBit_le (numProc : ℕ) (bits : ℕ → ℕ) (no k : ℕ) :
    dropBit numProc bits no k ≤ bits k := by
  unfold dropBit
  split_ifs
  · exact Nat.and_le_left
  · exact le_rfl

/-- What one `try_assign` does. -/
theorem MultiInv.assign (h : MultiInv numProc N K s rest) (hn : numProc ≤ MAX_PROC)
    (htop : ∀ k < numProc, top k = K[k]?) (hlen : K.length ≤ numProc) (nd : K.Nodup)
    {idx pr : ℕ} {t : Tsk} (hidx : idx < numProc) (hpr : pr < numProc) (hK : K[idx]? = some t)
    (ht : t ∈ rest) (hfree : pr ∈ freeOf N s.sch t)
    (hm : Matchable (fun x => (freeOf N s.sch x).erase pr) (rest.erase t)) :
    MultiInv numProc N K (s.assign numProc top idx pr) (rest.erase t) := by
  obtain ⟨hprN, hprf⟩ := mem_freeOf.mp hfree
  have hsch : (s.assign numProc top idx pr).sch = Function.update s.sch pr (some t) := by
    unfold Assign.assign
    rw [htop idx hidx, hK]
  have hfreeOf : ∀ x, freeOf N (Function.update s.sch pr (some t)) x =
      (freeOf N s.sch x).erase pr := by
    intro x
    ext i
    rw [Finset.mem_erase, mem_freeOf, mem_freeOf]
    by_cases e : i = pr
    · subst e; simp
    · rw [Function.update_of_ne e]; simp [e]
  have hbit : ∀ k, (s.assign numProc top idx pr).top_bit k =
      Function.update (dropBit numProc s.top_bit pr) idx 0 k := fun _ => rfl
  refine ⟨hsch ▸ h.placing.place ht hpr hprf hprN, ?_, ?_, ?_, ?_, ?_⟩
  · intro k hk
    rw [hbit, Function.update_apply]
    split_ifs with e
    · rfl
    · have := dropBit_le numProc s.top_bit pr k
      rw [h.top_bit_none k hk] at this
      omega
  · intro k
    rw [hbit, Function.update_apply]
    split_ifs with e
    · exact Nat.two_pow_pos numProc
    · exact lt_of_le_of_lt (dropBit_le numProc s.top_bit pr k) (h.top_bit_lt k)
  · intro k x hk
    have hkl : k < K.length := (List.getElem?_eq_some_iff.mp hk).1
    rw [hbit, Function.update_apply, hsch, hfreeOf]
    split_ifs with e hx hx
    · subst e
      rw [hK, Option.some.injEq] at hk
      exact absurd hk.symm (Finset.ne_of_mem_erase hx)
    · exact procs_zero
    · rw [procs_dropBit hn _ _ (by omega), h.top_bit k x hk, if_pos (Finset.mem_of_mem_erase hx)]
    · have hxt : x ≠ t := by
        rintro rfl
        exact e (List.getElem?_inj hkl nd |>.mp (hk.trans hK.symm))
      rw [procs_dropBit hn _ _ (by omega), h.top_bit k x hk,
        if_neg fun c => hx (Finset.mem_erase.mpr ⟨hxt, c⟩), Finset.erase_empty]
  · intro j hj hjf
    rw [hsch, Function.update_apply] at hjf
    split_ifs at hjf with e
    have hrow := h.top_bit idx t hK
    rw [if_pos ht] at hrow
    have hbitj : hasBit (s.top_bit idx) j = true ↔ t ∈ users N rest j := by
      rw [hasBit_eq_testBit, mem_users]
      have : j ∈ procs numProc (s.top_bit idx) ↔ (s.top_bit idx).testBit j = true := by
        rw [mem_procs]; exact and_iff_right hj
      rw [← this, hrow, mem_freeOf]
      tauto
    have husers : users N (rest.erase t) j = (users N rest j).erase t := Finset.filter_erase _ _ _
    have hcard : (users N rest j).card ≤ 4 := by
      have h₁ := Finset.card_le_card (Finset.filter_subset (fun x => j ∈ N x) rest)
      have h₂ := Finset.card_le_card (s := rest) (t := K.toFinset) fun x hx =>
        List.mem_toFinset.mpr (h.placing.rest_subset x hx)
      have h₃ := K.toFinset_card_le
      have h₄ : numProc ≤ 4 := hn
      exact (h₁.trans h₂).trans (by omega)
    show unsumBits numProc s.bit_cnt (s.top_bit idx) j = _
    unfold unsumBits
    rw [husers, h.bit_cnt j hj hjf]
    by_cases hu : t ∈ users N rest j
    · have hpos := Finset.card_pos.mpr ⟨t, hu⟩
      rw [if_pos ⟨hj, hbitj.mpr hu⟩, Finset.card_erase_of_mem hu]
      omega
    · rw [if_neg fun c => hu (hbitj.mp c.2), Finset.erase_eq_of_notMem hu]
  · rw [hsch, show freeOf N (Function.update s.sch pr (some t)) =
      fun x => (freeOf N s.sch x).erase pr from funext hfreeOf]
    exact hm

/-- **`multi_core_assign` places every task.** -/
theorem multiCoreAssign_placing (hn : numProc ≤ MAX_PROC) (htop : ∀ k < numProc, top k = K[k]?)
    (hlen : K.length ≤ numProc) (nd : K.Nodup) (hNn : ∀ t, N t ⊆ Finset.range numProc) :
    ∀ (n : ℕ) (s : Assign) (rest : Finset Tsk), rest.card = n → MultiInv numProc N K s rest →
      Placing numProc N K (multiCoreAssign numProc u top n s) ∅
  | 0, s, rest, hr, h => by
    rw [Finset.card_eq_zero.mp hr] at h
    exact h.placing
  | n + 1, s, rest, hr, h => by
    have hne : rest.Nonempty := Finset.card_pos.mp (by omega)
    obtain ⟨idx, pr, t, hre, hidx, hpr, hK, ht, hfree, hm⟩ :=
      h.reAssign (u := u) hn htop hlen hNn hne
    unfold multiCoreAssign
    rw [hre]
    refine multiCoreAssign_placing hn htop hlen nd hNn n _ (rest.erase t) ?_
      (h.assign hn htop hlen nd hidx hpr hK ht hfree hm)
    rw [Finset.card_erase_of_mem ht]
    omega

end Multi

/-! ## `single_core_assign` -/

/-- The task does not choose among processors. -/
def Wide (numProc : ℕ) (c : Core) (t : Tsk) : Prop :=
  (c.tcb t).tskatr &&& TA_ASSPRC = 0 ∨ (c.tcb t).assprc = ALL_CORE_BIT numProc

theorem Wide.askedBits_eq {t : Tsk} (h : Wide numProc c t) :
    askedBits numProc c t = ALL_CORE_BIT numProc := by
  unfold askedBits
  split_ifs with ha
  · rfl
  · exact h.resolve_left ha

theorem mayRunOn_subset_asked {t : Tsk} (hctx : CtxOk numProc c u t) :
    mayRunOn numProc c u t ⊆ procs numProc (askedBits numProc c t) := by
  intro i hi
  have hlt := Finset.mem_range.mp (mayRunOn_subset t hi)
  unfold mayRunOn at hi
  rw [mem_procs, ← hasBit_eq_testBit]
  split_ifs at hi with hp
  · obtain ⟨-, ht, hd⟩ := mem_pinnedOn.mp hi
    exact ⟨hlt, (hctx i hlt ht hd).1⟩
  · exact ⟨hlt, (Finset.mem_filter.mp hi).2.1⟩

/-- A processor that runs a wide task is one the task may run on. -/
theorem Wide.mem_mayRunOn (hn : numProc ≤ MAX_PROC) {t : Tsk} {i : ℕ} (h : Wide numProc c t)
    (hctx : CtxOk numProc c u t) (hi : i < numProc) (hr : u.ctxtsk i = some t) :
    i ∈ mayRunOn numProc c u t := by
  unfold mayRunOn
  split_ifs with hp
  · obtain ⟨k, hk⟩ := hp
    obtain ⟨hkn, hkt, hkd⟩ := mem_pinnedOn.mp hk
    rwa [(hctx k hkn hkt hkd).2 i hi hr]
  · rw [Finset.mem_filter, Finset.mem_range, hasBit_eq_testBit, h.askedBits_eq,
      testBit_ALL_CORE_BIT hn]
    refine ⟨hi, by simpa using hi, ?_⟩
    by_contra hd
    exact hp ⟨i, mem_pinnedOn.mpr ⟨hi, hr, not_lt.mp hd⟩⟩

/-- What `ready_queue_top` hands to `single_core_assign`. -/
structure SingleTasks (numProc : ℕ) (c : Core) (u : Cpus) (K : List Tsk) : Prop where
  numProc_le : numProc ≤ MAX_PROC
  length_le : K.length ≤ numProc
  nodup : K.Nodup
  mask : ∀ t ∈ K, MaskOk numProc c t
  ctx : ∀ t ∈ K, CtxOk numProc c u t
  matchable : Matchable (mayRunOn numProc c u) K.toFinset
  single : ∀ t ∈ K, ¬(1 < cntBits2 numProc (c.tcb t).assprc ∧
    cntBits2 numProc (c.tcb t).assprc < numProc)

/-- A task that is not wide names one processor. -/
theorem SingleTasks.confined (h : SingleTasks numProc c u K) {t : Tsk} (ht : t ∈ K)
    (hw : ¬Wide numProc c t) :
    ∃ i < numProc, procs numProc (c.tcb t).assprc = {i} ∧ mayRunOn numProc c u t = {i} := by
  have hask : askedBits numProc c t = (c.tcb t).assprc := if_neg fun e => hw (Or.inl e)
  have hmask := h.mask t ht
  unfold MaskOk at hmask
  rw [hask, le_ALL_CORE_BIT h.numProc_le] at hmask
  have hsingle := h.single t ht
  rw [cntBits2_eq_card] at hsingle
  have hpos : (procs numProc (c.tcb t).assprc).card ≠ 0 := fun e =>
    hmask.1 ((procs_eq_empty_iff hmask.2).mp (Finset.card_eq_zero.mp e))
  have hsub : procs numProc (c.tcb t).assprc ⊆ Finset.range numProc := Finset.filter_subset _ _
  have hall : ¬numProc ≤ (procs numProc (c.tcb t).assprc).card := by
    intro hle
    have heq := Finset.eq_of_subset_of_card_le hsub (by rwa [Finset.card_range])
    refine hw (Or.inr (Nat.eq_of_testBit_eq fun i => ?_))
    rw [testBit_ALL_CORE_BIT h.numProc_le]
    by_cases hi : i < numProc
    · have : i ∈ procs numProc (c.tcb t).assprc := by rw [heq]; exact Finset.mem_range.mpr hi
      simp [hi, (mem_procs.mp this).2]
    · have := Nat.testBit_lt_two_pow (lt_of_lt_of_le hmask.2
        (Nat.pow_le_pow_right (by norm_num) (not_lt.mp hi)))
      simp [hi, this]
  obtain ⟨i, hi⟩ := Finset.card_eq_one.mp (by omega : (procs numProc (c.tcb t).assprc).card = 1)
  have hiN : i < numProc := by
    have : i ∈ procs numProc (c.tcb t).assprc := by rw [hi]; exact Finset.mem_singleton_self i
    exact (mem_procs.mp this).1
  refine ⟨i, hiN, hi, ?_⟩
  have hmay := mayRunOn_subset_asked (h.ctx t ht)
  rw [hask, hi] at hmay
  exact (Finset.Nonempty.subset_singleton_iff
    (h.matchable.nonempty (List.mem_toFinset.mpr ht))).mp hmay

/-- The arrays while the tasks `rest` are still to be placed. -/
structure SingleInv (numProc : ℕ) (N : Tsk → Finset ℕ) (K : List Tsk) (s : Placement)
    (rest : Finset Tsk) : Prop where
  placing : Placing numProc N K s.sch rest
  top : ∀ k < numProc, ∀ t, s.top_tcb k = some t ↔ K[k]? = some t ∧ t ∈ rest

section Single

variable {s : Placement}

theorem SingleInv.top_none (h : SingleInv numProc N K s rest) {k : ℕ} (hk : k < numProc)
    (he : s.top_tcb k = none) {t : Tsk} (hK : K[k]? = some t) : t ∉ rest := by
  intro ht
  rw [(h.top k hk t).mpr ⟨hK, ht⟩] at he
  exact nomatch he

/-- The first fitting processor takes the task, or none fits and nothing changes. -/
theorem SingleInv.putFirst (h : SingleInv numProc N K s rest) (nd : K.Nodup) {j : ℕ} {t : Tsk}
    {p : ℕ → Bool} (hj : j < numProc) (hK : K[j]? = some t) (ht : t ∈ rest)
    (hp : ∀ i < numProc, p i = true → s.sch i = none ∧ i ∈ N t) :
    (∃ i < numProc, p i = true ∧ (s.putFirst numProc j t p).sch = Function.update s.sch i (some t) ∧
        SingleInv numProc N K (s.putFirst numProc j t p) (rest.erase t)) ∨
      (∀ i < numProc, p i = false) ∧ s.putFirst numProc j t p = s := by
  unfold Placement.putFirst
  rcases hf : (List.range numProc).find? p with _ | i
  · refine Or.inr ⟨fun i hi => ?_, rfl⟩
    simpa using List.find?_eq_none.mp hf i (List.mem_range.mpr hi)
  · have hi := List.mem_range.mp (List.mem_of_find?_eq_some hf)
    have hpi := List.find?_some hf
    obtain ⟨hfree, hN⟩ := hp i hi hpi
    refine Or.inl ⟨i, hi, hpi, rfl, h.placing.place ht hi hfree hN, fun k hk x => ?_⟩
    show Function.update s.top_tcb j none k = some x ↔ _
    by_cases e : k = j
    · subst e
      rw [Function.update_self, hK, Option.some.injEq]
      constructor
      · exact fun c => nomatch c
      · rintro ⟨rfl, hx⟩
        exact absurd hx (Finset.notMem_erase t rest)
    · rw [Function.update_of_ne e, h.top k hk, Finset.mem_erase]
      refine and_congr_right fun hKk => ?_
      have hxt : x ≠ t := by
        rintro rfl
        exact e (List.getElem?_inj (List.getElem?_eq_some_iff.mp hKk).1 nd |>.mp
          (hKk.trans hK.symm))
      exact (and_iff_right hxt).symm

/-- Places `m` on of `assignAssprc`: the tasks that name one processor get it. -/
theorem SingleTasks.assignAssprc (h : SingleTasks numProc c u K) :
    ∀ (d m : ℕ) (s : Placement) (rest : Finset Tsk), m + d = numProc →
      SingleInv numProc (mayRunOn numProc c u) K s rest →
      (∀ k t, m ≤ k → K[k]? = some t → t ∈ rest) →
      (∀ k t, k < m → K[k]? = some t → t ∈ rest → Wide numProc c t) →
      (∀ i < numProc, ∀ t, s.sch i = some t → ¬Wide numProc c t) →
      ∃ rest', SingleInv numProc (mayRunOn numProc c u) K
          (SmpTKernel.assignAssprc numProc c (List.range' m d) s) rest' ∧
        (∀ t ∈ rest', Wide numProc c t) ∧
        ∀ i < numProc, ∀ t, (SmpTKernel.assignAssprc numProc c (List.range' m d) s).sch i = some t →
          ¬Wide numProc c t := by
  -- with no place left every task still to be placed has been looked at
  have done : ∀ {m : ℕ} {s : Placement} {rest : Finset Tsk}, K.length ≤ m →
      SingleInv numProc (mayRunOn numProc c u) K s rest →
      (∀ k t, k < m → K[k]? = some t → t ∈ rest → Wide numProc c t) →
      ∀ t ∈ rest, Wide numProc c t := by
    intro m s rest hm hs hw t ht
    obtain ⟨k, hk, hKk⟩ := List.getElem_of_mem (hs.placing.rest_subset t ht)
    exact hw k t (by omega) (by rw [List.getElem?_eq_getElem hk, hKk]) ht
  intro d
  induction d with
  | zero =>
    intro m s rest hm hs _ hw hsch
    have := h.length_le
    exact ⟨rest, hs, done (by omega) hs hw, hsch⟩
  | succ d ih =>
    intro m s rest hm hs hrest hw hsch
    rw [List.range'_succ]
    unfold SmpTKernel.assignAssprc
    rcases htop : s.top_tcb m with _ | t
    · refine ⟨rest, hs, done ?_ hs hw, hsch⟩
      by_contra hlt
      obtain ⟨x, hKm⟩ : ∃ x, K[m]? = some x := ⟨_, List.getElem?_eq_getElem (by omega)⟩
      exact hs.top_none (by omega) htop hKm (hrest m _ le_rfl hKm)
    obtain ⟨hK, ht⟩ := (hs.top m (by omega) t).mp htop
    have htK : t ∈ K := List.mem_of_getElem? hK
    dsimp only
    by_cases hwide : (c.tcb t).tskatr &&& TA_ASSPRC = 0 ∨ (c.tcb t).assprc = ALL_CORE_BIT numProc
    · rw [if_pos hwide]
      refine ih (m + 1) s rest (by omega) hs (fun k x hk => hrest k x (by omega)) ?_ hsch
      intro k x hk hKk hx
      by_cases e : k = m
      · subst e
        rw [hK, Option.some.injEq] at hKk
        exact hKk ▸ hwide
      · exact hw k x (by omega) hKk hx
    · rw [if_neg hwide]
      obtain ⟨i, hi, hproc, hmay⟩ := h.confined htK hwide
      have hbit : ∀ k < numProc, hasBit (c.tcb t).assprc k = true ↔ k = i := by
        intro k hk
        have hmem : k ∈ procs numProc (c.tcb t).assprc ↔ k = i := by
          rw [hproc, Finset.mem_singleton]
        rw [← hmem, mem_procs, hasBit_eq_testBit]
        exact (and_iff_right hk).symm
      have hput := hs.putFirst (p := fun i => hasBit (c.tcb t).assprc i ∧ s.sch i = none)
        h.nodup (by omega) hK ht fun k hk hp => by
          rw [decide_eq_true_eq] at hp
          rw [hmay, (hbit k hk).mp hp.1, Finset.mem_singleton]
          exact ⟨(hbit k hk).mp hp.1 ▸ hp.2, rfl⟩
      rcases hput with ⟨k, hk, -, hsch', hs'⟩ | ⟨hnone, -⟩
      · refine ih (m + 1) _ (rest.erase t) (by omega) hs' (fun k x hkm hKk => ?_)
          (fun k x hkm hKk hx => ?_) fun i' hi' x hx => ?_
        · refine Finset.mem_erase.mpr ⟨?_, hrest k x (by omega) hKk⟩
          rintro rfl
          have := List.getElem?_inj (List.getElem?_eq_some_iff.mp hKk).1 h.nodup |>.mp
            (hKk.trans hK.symm)
          omega
        · obtain ⟨hxt, hx⟩ := Finset.mem_erase.mp hx
          by_cases e : k = m
          · subst e
            rw [hK, Option.some.injEq] at hKk
            exact absurd hKk.symm hxt
          · exact hw k x (by omega) hKk hx
        · rw [hsch', Function.update_apply] at hx
          split_ifs at hx
          · rw [Option.some.injEq] at hx
            exact hx ▸ hwide
          · exact hsch i' hi' x hx
      · -- the named processor is taken by a task confined to it as well
        exfalso
        have hi' := hnone i hi
        rw [decide_eq_false_iff_not, not_and] at hi'
        have hocc := hi' ((hbit i hi).mpr rfl)
        obtain ⟨x, hx⟩ := Option.ne_none_iff_exists'.mp hocc
        obtain ⟨hxK, hxr, hxN⟩ := hs.placing.sound i hi x hx
        obtain ⟨k, -, -, hxmay⟩ := h.confined hxK (hsch i hi x hx)
        rw [hxmay, Finset.mem_singleton] at hxN
        subst hxN
        exact hxr (Matchable.ne_of_confined h.matchable htK hxK hmay hxmay ▸ ht)

/-- Places below `n` of `assignCtxtsk`: a wide task on a processor that does not dispatch stays
there. -/
theorem SingleTasks.assignCtxtsk (h : SingleTasks numProc c u K)
    (hs : SingleInv numProc (mayRunOn numProc c u) K s rest) (hw : ∀ t ∈ rest, Wide numProc c t)
    (hsch : ∀ i < numProc, ∀ t, s.sch i = some t → ¬Wide numProc c t) :
    ∀ n ≤ numProc, ∃ rest', SingleInv numProc (mayRunOn numProc c u) K
        ((List.range n).foldl (SmpTKernel.assignCtxtsk numProc u) s) rest' ∧
      (∀ t ∈ rest', Wide numProc c t) ∧
      (∀ i < numProc, ∀ t, ((List.range n).foldl (SmpTKernel.assignCtxtsk numProc u) s).sch i =
        some t →
        ¬Wide numProc c t ∨ u.ctxtsk i = some t) ∧
      ∀ k < n, ∀ t, K[k]? = some t → t ∈ rest' → pinnedOn numProc u t = ∅ := by
  intro n
  induction n with
  | zero =>
    intro _
    exact ⟨rest, hs, hw, fun i hi t ht => Or.inl (hsch i hi t ht),
      fun k hk => absurd hk (Nat.not_lt_zero k)⟩
  | succ n ih =>
    intro hn
    obtain ⟨rest', hs', hw', hsch', hdone⟩ := ih (by omega)
    rw [List.range_succ, List.foldl_append, List.foldl_cons, List.foldl_nil]
    generalize (List.range n).foldl (SmpTKernel.assignCtxtsk numProc u) s = s' at hs' hsch'
    unfold SmpTKernel.assignCtxtsk
    have hlast : ∀ {r : Finset Tsk}, (∀ k < n, ∀ t, K[k]? = some t → t ∈ r →
        pinnedOn numProc u t = ∅) → (∀ t, K[n]? = some t → t ∈ r → pinnedOn numProc u t = ∅) →
        ∀ k < n + 1, ∀ t, K[k]? = some t → t ∈ r → pinnedOn numProc u t = ∅ := by
      intro r h₁ h₂ k hk t hK hr
      by_cases e : k = n
      · subst e; exact h₂ t hK hr
      · exact h₁ k (by omega) t hK hr
    rcases htop : s'.top_tcb n with _ | t
    · exact ⟨rest', hs', hw', hsch', hlast hdone fun t hK hr =>
        absurd hr (hs'.top_none (by omega) htop hK)⟩
    obtain ⟨hK, ht⟩ := (hs'.top n (by omega) t).mp htop
    have htK : t ∈ K := List.mem_of_getElem? hK
    dsimp only
    have hput := hs'.putFirst (p := fun i => s'.sch i = none ∧ u.ctxtsk i = some t) h.nodup
      (by omega) hK ht fun i hi hp => by
        rw [decide_eq_true_eq] at hp
        exact ⟨hp.1, (hw' t ht).mem_mayRunOn h.numProc_le (h.ctx t htK) hi hp.2⟩
    rcases hput with ⟨i, hi, hp, hschi, hs''⟩ | ⟨hnone, hsame⟩
    · rw [decide_eq_true_eq] at hp
      refine ⟨rest'.erase t, hs'', fun x hx => hw' x (Finset.mem_of_mem_erase hx),
        fun k hk x hx => ?_, hlast (fun k hk x hKk hx =>
          hdone k hk x hKk (Finset.mem_of_mem_erase hx)) fun x hKn hx => ?_⟩
      · rw [hschi, Function.update_apply] at hx
        split_ifs at hx with e
        · rw [Option.some.injEq] at hx
          exact Or.inr (by rw [e, ← hx]; exact hp.2)
        · exact hsch' k hk x hx
      · rw [hK, Option.some.injEq] at hKn
        exact absurd hKn.symm (Finset.ne_of_mem_erase hx)
    · rw [hsame]
      refine ⟨rest', hs', hw', hsch', hlast hdone fun x hKn hx => ?_⟩
      rw [hK, Option.some.injEq] at hKn
      subst hKn
      -- were the task pinned, its processor would be taken by a task confined to it as well
      by_contra hpin
      obtain ⟨i, hi⟩ := Finset.nonempty_iff_ne_empty.mpr hpin
      obtain ⟨hin, hit, -⟩ := mem_pinnedOn.mp hi
      have hmay : mayRunOn numProc c u t = {i} := by
        unfold mayRunOn
        rw [if_pos ⟨i, hi⟩, pinnedOn_eq (h.ctx t htK) hi]
      have hi' := hnone i hin
      rw [decide_eq_false_iff_not, not_and_or] at hi'
      have hocc := hi'.resolve_right (not_not.mpr hit)
      obtain ⟨x, hx⟩ := Option.ne_none_iff_exists'.mp hocc
      obtain ⟨hxK, hxr, hxN⟩ := hs'.placing.sound i hin x hx
      rcases hsch' i hin x hx with hxw | hxi
      · obtain ⟨k, -, -, hxmay⟩ := h.confined hxK hxw
        rw [hxmay, Finset.mem_singleton] at hxN
        subst hxN
        exact hxr (Matchable.ne_of_confined h.matchable htK hxK hmay hxmay ▸ ht)
      · rw [hit, Option.some.injEq] at hxi
        exact hxr (hxi ▸ ht)

/-- The processors that dispatch. -/
def dispatching (numProc : ℕ) (u : Cpus) : Finset ℕ :=
  (Finset.range numProc).filter fun i => u.dispatch_disabled i < DDS_DISABLE

theorem mayRunOn_subset_dispatching {t : Tsk} (h : pinnedOn numProc u t = ∅) :
    mayRunOn numProc c u t ⊆ dispatching numProc u := by
  intro i hi
  unfold mayRunOn at hi
  rw [if_neg (by simp [h])] at hi
  obtain ⟨h₁, h₂⟩ := Finset.mem_filter.mp hi
  exact Finset.mem_filter.mpr ⟨h₁, h₂.2⟩

theorem Wide.mayRunOn_eq (hn : numProc ≤ MAX_PROC) {t : Tsk} (hw : Wide numProc c t)
    (h : pinnedOn numProc u t = ∅) : mayRunOn numProc c u t = dispatching numProc u := by
  unfold mayRunOn dispatching
  rw [if_neg (by simp [h])]
  refine Finset.filter_congr fun i hi => ?_
  rw [hasBit_eq_testBit, hw.askedBits_eq, testBit_ALL_CORE_BIT hn]
  simp [Finset.mem_range.mp hi]

/-- While a task that may run on any dispatching processor is left, such a processor is free. -/
theorem SingleTasks.exists_free (h : SingleTasks numProc c u K)
    (hs : SingleInv numProc (mayRunOn numProc c u) K s rest) {t : Tsk} (ht : t ∈ rest)
    (hmay : mayRunOn numProc c u t = dispatching numProc u) :
    ∃ i ∈ dispatching numProc u, s.sch i = none := by
  by_contra hall
  push Not at hall
  have hlt : ∀ i ∈ dispatching numProc u, i < numProc := fun i hi =>
    Finset.mem_range.mp (Finset.mem_filter.mp hi).1
  -- the tasks confined to the dispatching processors, `t` among them, are more than these
  let S : Finset Tsk := K.toFinset.filter fun x => mayRunOn numProc c u x ⊆ dispatching numProc u
  have hS := h.matchable.card_le (Finset.filter_subset (fun x =>
    mayRunOn numProc c u x ⊆ dispatching numProc u) K.toFinset)
  have hSle : (S.biUnion (mayRunOn numProc c u)).card ≤ (dispatching numProc u).card :=
    Finset.card_le_card (Finset.biUnion_subset.mpr fun x hx => (Finset.mem_filter.mp hx).2)
  have htS : t ∈ S := Finset.mem_filter.mpr
    ⟨List.mem_toFinset.mpr (hs.placing.rest_subset t ht), by rw [hmay]⟩
  have himg : (dispatching numProc u).card ≤ (S.erase t).card := by
    refine Finset.card_le_card_of_injOn (fun i => (s.sch i).getD t) (fun i hi => ?_) ?_
    · obtain ⟨x, hx⟩ := Option.ne_none_iff_exists'.mp (hall i hi)
      obtain ⟨hxK, hxr, hxN⟩ := hs.placing.sound i (hlt i hi) x hx
      have hxpin : pinnedOn numProc u x = ∅ := by
        by_contra hne
        obtain ⟨k, hk⟩ := Finset.nonempty_iff_ne_empty.mpr hne
        unfold mayRunOn at hxN
        rw [if_pos ⟨k, hk⟩] at hxN
        have := (mem_pinnedOn.mp hxN).2.2
        have := (Finset.mem_filter.mp hi).2
        omega
      show (s.sch i).getD t ∈ (S.erase t : Finset Tsk)
      rw [hx, Option.getD_some]
      refine Finset.mem_erase.mpr ⟨?_, Finset.mem_filter.mpr
        ⟨List.mem_toFinset.mpr hxK, mayRunOn_subset_dispatching hxpin⟩⟩
      rintro rfl
      exact hxr ht
    · intro i hi i' hi' e
      obtain ⟨x, hx⟩ := Option.ne_none_iff_exists'.mp (hall i hi)
      obtain ⟨x', hx'⟩ := Option.ne_none_iff_exists'.mp (hall i' hi')
      simp only [hx, hx', Option.getD_some] at e
      subst e
      exact hs.placing.once i (hlt i hi) i' (hlt i' hi') x hx hx'
  have := Finset.card_erase_lt_of_mem htS
  have hS' : S.card ≤ (S.biUnion (mayRunOn numProc c u)).card := hS
  omega

/-- Places below `n` of `assignRest`: nothing is left over. -/
theorem SingleTasks.assignRest (h : SingleTasks numProc c u K)
    (hs : SingleInv numProc (mayRunOn numProc c u) K s rest)
    (hw : ∀ t ∈ rest, mayRunOn numProc c u t = dispatching numProc u) :
    ∀ n ≤ numProc, ∃ rest', SingleInv numProc (mayRunOn numProc c u) K
        ((List.range n).foldl (SmpTKernel.assignRest numProc u) s) rest' ∧
      (∀ t ∈ rest', mayRunOn numProc c u t = dispatching numProc u) ∧
      ∀ k < n, ∀ t, K[k]? = some t → t ∉ rest' := by
  intro n
  induction n with
  | zero => exact fun _ => ⟨rest, hs, hw, fun k hk => absurd hk (Nat.not_lt_zero k)⟩
  | succ n ih =>
    intro hn
    obtain ⟨rest', hs', hw', hdone⟩ := ih (by omega)
    rw [List.range_succ, List.foldl_append, List.foldl_cons, List.foldl_nil]
    generalize (List.range n).foldl (SmpTKernel.assignRest numProc u) s = s' at hs'
    unfold SmpTKernel.assignRest
    have hlast : ∀ {r : Finset Tsk}, (∀ k < n, ∀ t, K[k]? = some t → t ∉ r) →
        (∀ t, K[n]? = some t → t ∉ r) → ∀ k < n + 1, ∀ t, K[k]? = some t → t ∉ r := by
      intro r h₁ h₂ k hk t hK
      by_cases e : k = n
      · subst e; exact h₂ t hK
      · exact h₁ k (by omega) t hK
    rcases htop : s'.top_tcb n with _ | t
    · exact ⟨rest', hs', hw', hlast hdone fun t hK => hs'.top_none (by omega) htop hK⟩
    obtain ⟨hK, ht⟩ := (hs'.top n (by omega) t).mp htop
    dsimp only
    have hput := hs'.putFirst (p := fun i => ¬u.dispatch_disabled i ≥ DDS_DISABLE ∧ s'.sch i = none)
      h.nodup (by omega) hK ht fun i hi hp => by
        rw [decide_eq_true_eq] at hp
        refine ⟨hp.2, ?_⟩
        rw [hw' t ht]
        exact Finset.mem_filter.mpr ⟨Finset.mem_range.mpr hi, not_le.mp hp.1⟩
    rcases hput with ⟨i, -, -, -, hs''⟩ | ⟨hnone, -⟩
    · refine ⟨rest'.erase t, hs'', fun x hx => hw' x (Finset.mem_of_mem_erase hx),
        hlast (fun k hk x hKk hx => hdone k hk x hKk (Finset.mem_of_mem_erase hx))
          fun x hKn hx => ?_⟩
      rw [hK, Option.some.injEq] at hKn
      exact absurd hKn.symm (Finset.ne_of_mem_erase hx)
    · exfalso
      obtain ⟨i, hi, hfree⟩ := h.exists_free hs' ht (hw' t ht)
      obtain ⟨hin, hid⟩ := Finset.mem_filter.mp hi
      have := hnone i (Finset.mem_range.mp hin)
      rw [decide_eq_false_iff_not] at this
      exact this ⟨not_le.mpr hid, hfree⟩

/-- **`single_core_assign` places every task.** -/
theorem SingleTasks.placing (h : SingleTasks numProc c u K) {top : ℕ → Option Tsk}
    (htop : ∀ k < numProc, top k = K[k]?) :
    Placing numProc (mayRunOn numProc c u) K (singleCoreAssign numProc c u top) ∅ := by
  have h0 : SingleInv numProc (mayRunOn numProc c u) K
      { sch := fun _ => none, top_tcb := top } K.toFinset := by
    refine ⟨placing_init, fun k hk t => ?_⟩
    show top k = some t ↔ _
    rw [htop k hk]
    exact (and_iff_left_of_imp fun hK => List.mem_toFinset.mpr (List.mem_of_getElem? hK)).symm
  obtain ⟨r₁, h₁, hw₁, hsch₁⟩ := h.assignAssprc numProc 0 _ _ (by omega) h0
    (fun k t _ hK => List.mem_toFinset.mpr (List.mem_of_getElem? hK))
    (fun k t hk => absurd hk (Nat.not_lt_zero k)) (fun i hi t ht => nomatch ht)
  obtain ⟨r₂, h₂, hw₂, -, hpin₂⟩ := h.assignCtxtsk h₁ hw₁ hsch₁ numProc le_rfl
  have hmay₂ : ∀ t ∈ r₂, mayRunOn numProc c u t = dispatching numProc u := by
    intro t ht
    obtain ⟨k, hk, hKk⟩ := List.getElem_of_mem (h₂.placing.rest_subset t ht)
    have := h.length_le
    exact (hw₂ t ht).mayRunOn_eq h.numProc_le
      (hpin₂ k (by omega) t (by rw [List.getElem?_eq_getElem hk, hKk]) ht)
  obtain ⟨r₃, h₃, -, hdone₃⟩ := h.assignRest h₂ hmay₂ numProc le_rfl
  have hr₃ : r₃ = ∅ := by
    refine Finset.eq_empty_of_forall_notMem fun t ht => ?_
    obtain ⟨k, hk, hKk⟩ := List.getElem_of_mem (h₃.placing.rest_subset t ht)
    have := h.length_le
    exact hdone₃ k (by omega) t (by rw [List.getElem?_eq_getElem hk, hKk]) ht
  have := h₃.placing
  rw [hr₃] at this
  unfold singleCoreAssign
  rw [List.range_eq_range'] at this ⊢
  exact this

end Single

/-! ## `ready_queue_top` -/

/-- The specification: the tasks of the greedy selection from `L`, each on exactly one processor,
one it is permitted on; every other entry is `NULL`. -/
structure GreedyAssigned (numProc : ℕ) (N : Tsk → Finset ℕ) (L : List Tsk) (tcb : ℕ → Option Tsk) :
    Prop where
  placed : ∀ t, (∃ i < numProc, tcb i = some t) ↔ t ∈ greedy N numProc [] L
  once : ∀ t ∈ greedy N numProc [] L, ∃ i < numProc, tcb i = some t ∧ i ∈ N t ∧
    ∀ i' < numProc, tcb i' = some t → i' = i

theorem Placing.greedyAssigned {L : List Tsk}
    (h : Placing numProc N (greedy N numProc [] L) sch ∅) : GreedyAssigned numProc N L sch where
  placed t := ⟨fun ⟨i, hi, ht⟩ => (h.sound i hi t ht).1,
    fun ht => h.complete t ht (Finset.notMem_empty t)⟩
  once t ht := by
    obtain ⟨i, hi, hit⟩ := h.complete t ht (Finset.notMem_empty t)
    exact ⟨i, hi, hit, (h.sound i hi t hit).2.2, fun i' hi' hit' => h.once i' hi' i hi t hit' hit⟩

/-- The arrays handed to `multi_core_assign`. -/
theorem Selected.multiInv {L : List Tsk} {s : Selection} (hn : numProc ≤ MAX_PROC)
    (h : Selected numProc c u L s K) (nd : K.Nodup) (hm : ∀ t ∈ K, MaskOk numProc c t)
    (hctx : ∀ t ∈ K, CtxOk numProc c u t) :
    MultiInv numProc (mayRunOn numProc c u) K
      { sch := fun _ => none, top_bit := s.top_bit, bit_cnt := s.bit_cnt } K.toFinset := by
  have hfree : freeOf (mayRunOn numProc c u) (fun _ => none) = mayRunOn numProc c u := by
    funext t
    exact Finset.filter_true_of_mem fun _ _ => rfl
  refine ⟨placing_init, fun k hk => ?_, fun k => ?_, fun k t hk => ?_, fun j hj _ => ?_, ?_⟩
  · show s.top_bit k = 0
    rw [h.top_bit, hk]
    rfl
  · show s.top_bit k < _
    rw [h.top_bit]
    cases hK : K[k]? with
    | none => exact Nat.two_pow_pos numProc
    | some t => exact placeBits_lt hn (hm t (List.mem_of_getElem? hK))
  · have htK := List.mem_of_getElem? hk
    show procs numProc (s.top_bit k) = _
    rw [if_pos (List.mem_toFinset.mpr htK), h.top_bit, hk, hfree]
    exact procs_placeBits hn (hctx t htK)
  · show s.bit_cnt j = _
    rw [h.bit_cnt j hj]
    rw [← List.toFinset_card_of_nodup (nd.filter _)]
    congr 1
    ext t
    simp [mem_users]
  · show Matchable (freeOf _ fun _ => none) _
    rw [hfree]
    exact h.matchable

theorem needsMulti_eq_false {s : Selection} {L : List Tsk} (h : Selected numProc c u L s K)
    (hs : needsMulti numProc c s = false) {t : Tsk} (ht : t ∈ K) :
    ¬(1 < cntBits2 numProc (c.tcb t).assprc ∧ cntBits2 numProc (c.tcb t).assprc < numProc) := by
  obtain ⟨k, hk, hKk⟩ := List.getElem_of_mem ht
  have hlen := h.length_le
  unfold needsMulti at hs
  rw [List.any_eq_false] at hs
  have := hs k (List.mem_range.mpr (by rw [h.assign_num]; exact hk))
  rw [h.top k (by omega), List.getElem?_eq_getElem hk, hKk] at this
  simpa using this

variable {live : QHead → Prop} {Q : QHead → List Tsk}

/-- The selection loop starts from `top[]`. -/
def startSelection (c : Core) : Selection :=
  { top_tcb := c.ready_queue.top, top_bit := fun _ => 0, bit_cnt := fun _ => 0,
    hist := [], assign_num := 0 }

/-- Where the chosen tasks are placed. -/
def placed (numProc : ℕ) (c : Core) (u : Cpus) (s : Selection) : ℕ → Option Tsk :=
  if needsMulti numProc c s then
    multiCoreAssign numProc u s.top_tcb s.assign_num
      { sch := fun _ => none, top_bit := s.top_bit, bit_cnt := s.bit_cnt }
  else singleCoreAssign numProc c u s.top_tcb

theorem readyQueueTop_eq (fuel : ℕ) : readyQueueTop numProc c u fuel =
    (selectTop numProc c u fuel 0 (startSelection c)).map fun s =>
      (placed numProc c u s, { c with ready_queue.chg := false }) := rfl

/-- The loop chooses the greedy selection, and all of it is placed. -/
theorem ReadyInv.selects (r : ReadyInv numProc live Q c) (hn : numProc ≤ MAX_PROC)
    (hm : ∀ t ∈ ordered (rdyQ Q), MaskOk numProc c t)
    (hctx : ∀ t ∈ ordered (rdyQ Q), CtxOk numProc c u t) {fuel : ℕ}
    (hf : (ordered (rdyQ Q)).length < fuel) :
    ∃ s, selectTop numProc c u fuel 0 (startSelection c) = some s ∧
      Selected numProc c u (ordered (rdyQ Q)) s
        (greedy (mayRunOn numProc c u) numProc [] (ordered (rdyQ Q))) ∧
      GreedyAssigned numProc (mayRunOn numProc c u) (ordered (rdyQ Q)) (placed numProc c u s) := by
  have h0 : SelInv numProc c u (ordered (rdyQ Q)) (startSelection c) [] (ordered (rdyQ Q)) := by
    refine ⟨⟨rfl, fun _ => rfl, fun _ _ => rfl, ?_⟩, ⟨⟨[], rfl, List.Sublist.refl []⟩,
      Nat.zero_le _, fun k hk => r.top k hk⟩, fun _ => histOk_nil⟩
    exact matchable_iff.mpr fun S hS => by
      rw [List.toFinset_nil, Finset.subset_empty] at hS
      simp [hS]
  obtain ⟨s, hs, hsel⟩ := selectTop_greedy r.toReadyLinks r.bitmap hn hm hctx fuel _ [] _ h0 hf
  have nd : (greedy (mayRunOn numProc c u) numProc [] (ordered (rdyQ Q))).Nodup :=
    r.nodup_ordered.sublist hsel.sublist
  have hmK := fun t ht => hm t (hsel.sublist.subset ht)
  have hctxK := fun t ht => hctx t (hsel.sublist.subset ht)
  rw [List.length_nil] at hs
  refine ⟨s, hs, hsel, Placing.greedyAssigned ?_⟩
  unfold placed
  by_cases hmulti : needsMulti numProc c s = true
  · rw [if_pos hmulti, hsel.assign_num]
    exact multiCoreAssign_placing hn hsel.top hsel.length_le nd mayRunOn_subset _ _ _
      (List.toFinset_card_of_nodup nd) (hsel.multiInv hn nd hmK hctxK)
  · rw [if_neg hmulti]
    exact SingleTasks.placing ⟨hn, hsel.length_le, nd, hmK, hctxK, hsel.matchable,
      fun t ht => needsMulti_eq_false hsel (by simpa using hmulti) ht⟩ hsel.top

/-- **`ready_queue_top` is the greedy maximal assignment.** For every well-formed ready queue, on at
most four processors, when each processor that does not dispatch runs a task that may run there and
runs nowhere else. -/
theorem readyQueueTop_greedy (hn : numProc ≤ MAX_PROC) (r : ReadyInv numProc live Q c)
    (hm : ∀ t ∈ ordered (rdyQ Q), MaskOk numProc c t)
    (hctx : ∀ t ∈ ordered (rdyQ Q), CtxOk numProc c u t) {fuel : ℕ}
    (hf : (ordered (rdyQ Q)).length < fuel) :
    ∃ tcb, readyQueueTop numProc c u fuel = some (tcb, { c with ready_queue.chg := false }) ∧
      GreedyAssigned numProc (mayRunOn numProc c u) (ordered (rdyQ Q)) tcb := by
  obtain ⟨s, hs, -, hplaced⟩ := r.selects hn hm hctx hf
  refine ⟨placed numProc c u s, ?_, hplaced⟩
  rw [readyQueueTop_eq, hs, Option.map_some]

/-! ## A task that runs where it may not

Without the condition on the processors that do not dispatch the assignment can miss the
specification: processor `1` does not dispatch and runs task `0`, whose mask names processor `0`
only.
-/

/-- Memory in which every task is restricted to processor `0`. -/
def strayIdle : Core :=
  { idleCore with tcb := fun t => { idleCore.tcb t with tskatr := TA_ASSPRC, assprc := 1 } }

/-- Task `0` is ready. -/
def strayCore : Core := readyQueueInsert 2 (readyQueueInitialize strayIdle) 0

/-- Processor `1` runs task `0` with dispatching disabled. -/
def strayCpus : Cpus where
  ctxtsk i := if i = 1 then some 0 else none
  dispatch_disabled i := if i = 1 then DDS_DISABLE else DDS_ENABLE

theorem strayCore_inv :
    ReadyInv 2 IsRdy (Function.update (fun _ => []) (.rdy 0) [0]) strayCore := by
  have h : ReadyInv 2 IsRdy (fun _ => []) (readyQueueInitialize strayIdle) :=
    readyInv_initialize _ (by decide)
  exact h.insert (t := 0) (by simp) (by decide) rfl

theorem ordered_stray : ordered (rdyQ (Function.update (fun _ => []) (.rdy 0) [0])) = [0] := by
  rw [ordered_update (by decide)]
  have hb : before (rdyQ fun _ => []) 0 = [] := rfl
  have ha : after (rdyQ fun _ => []) 0 = [] := after_eq_nil fun _ _ => rfl
  rw [hb, ha]
  rfl

/-- The task is placed on processor `0`, but it is permitted on processor `1` only. -/
theorem readyQueueTop_stray :
    ∃ (Q : QHead → List Tsk) (c : Core) (u : Cpus), ReadyInv 2 IsRdy Q c ∧
      (∀ t ∈ ordered (rdyQ Q), MaskOk 2 c t) ∧ (ordered (rdyQ Q)).length < 2 ∧
      ∃ tcb c', readyQueueTop 2 c u 2 = some (tcb, c') ∧
        ¬GreedyAssigned 2 (mayRunOn 2 c u) (ordered (rdyQ Q)) tcb := by
  refine ⟨_, strayCore, strayCpus, strayCore_inv, ?_, ?_, _, _, rfl, fun h => ?_⟩
  · rw [ordered_stray]
    intro t ht
    rw [List.mem_singleton.mp ht]
    unfold MaskOk
    decide
  · rw [ordered_stray]
    decide
  · rw [ordered_stray] at h
    have h0 : (0 : Tsk) ∈ greedy (mayRunOn 2 strayCore strayCpus) 2 [] [0] :=
      (h.placed 0).mp ⟨0, by decide, rfl⟩
    obtain ⟨i, -, -, hmay, hone⟩ := h.once 0 h0
    have hi : (0 : ℕ) = i := hone 0 (by decide) rfl
    rw [← hi] at hmay
    revert hmay
    decide

/-! ## Tasks that ask for different processors -/

/-- Memory in which task `4` is the most urgent and restricted to processor `1`, and task `3` to
processor `0`. -/
def busyIdle : Core where
  que _ := ⟨.null, .null⟩
  tcb t :=
    { tskatr := if t = 3 ∨ t = 4 then TA_ASSPRC else 0
      priority := if t = 4 then 0 else 1
      klockwait := false
      klocked := false
      slicecnt := 0
      assprc := if t = 3 then 1 else if t = 4 then 2 else 3 }
  ready_queue := { bitmap := fun _ => 0, klocktsk := none, top := fun _ => none, chg := false }

/-- The tasks `1`, `2`, `3` and `4` are ready. -/
def busyCore : Core := [1, 2, 3, 4].foldl (readyQueueInsert 2) (readyQueueInitialize busyIdle)

def busyQ : QHead → List Tsk :=
  Function.update (Function.update (fun _ => []) (.rdy 1) [1, 2, 3]) (.rdy 0) [4]

theorem busy_out {Q : QHead → List Tsk} {p : ℕ} {t : Tsk} {l : List Tsk} (hQ : ∀ h, t ∉ Q h)
    (hl : t ∉ l) (h : QHead) :
    t ∉ Function.update Q (.rdy p) l h := by
  rw [Function.update_apply]
  split_ifs
  · exact hl
  · exact hQ h

theorem busyCore_inv : ReadyInv 2 IsRdy busyQ busyCore := by
  have h₀ : ReadyInv 2 IsRdy (fun _ => []) (readyQueueInitialize busyIdle) :=
    readyInv_initialize _ (by decide)
  have h₁ : ReadyInv 2 IsRdy (Function.update (fun _ => []) (.rdy 1) [1]) _ :=
    h₀.insert (t := 1) (by simp) (by decide) rfl
  have h₂ : ReadyInv 2 IsRdy (Function.update _ (.rdy 1) [1, 2]) _ :=
    h₁.insert (t := 2) (busy_out (by simp) (by decide)) (by decide) rfl
  rw [Function.update_idem] at h₂
  have h₃ : ReadyInv 2 IsRdy (Function.update _ (.rdy 1) [1, 2, 3]) _ :=
    h₂.insert (t := 3) (busy_out (by simp) (by decide)) (by decide) rfl
  rw [Function.update_idem] at h₃
  exact h₃.insert (t := 4) (busy_out (by simp) (by decide)) (by decide) rfl

theorem ordered_busy : ordered (rdyQ busyQ) = [4, 1, 2, 3] := by decide +kernel

/-- Processor `0` runs task `2` with dispatching disabled. -/
def busyCpus : Cpus where
  ctxtsk i := if i = 0 then some 2 else none
  dispatch_disabled i := if i = 0 then DDS_DISABLE else DDS_ENABLE

theorem busy_maskOk : ∀ t ∈ ordered (rdyQ busyQ), MaskOk 2 busyCore t := by
  rw [ordered_busy]
  unfold MaskOk
  decide +kernel

theorem busy_ctxOk : ∀ t ∈ ordered (rdyQ busyQ), CtxOk 2 busyCore busyCpus t := by
  rw [ordered_busy]
  unfold CtxOk
  decide +kernel

/-- The task `1` is passed over: task `2` stays where it is, and task `4` takes the other
processor. -/
theorem readyQueueTop_greedy_pinned :
    ∃ tcb, readyQueueTop 2 busyCore busyCpus 5 =
      some (tcb, { busyCore with ready_queue.chg := false }) ∧
      GreedyAssigned 2 (mayRunOn 2 busyCore busyCpus) (ordered (rdyQ busyQ)) tcb ∧
      tcb 0 = some 2 ∧ tcb 1 = some 4 := by
  have hlen : (ordered (rdyQ busyQ)).length < 5 := by
    rw [ordered_busy]
    decide
  obtain ⟨tcb, e, h⟩ := readyQueueTop_greedy (by decide) busyCore_inv busy_maskOk busy_ctxOk hlen
  have htop : (readyQueueTop 2 busyCore busyCpus 5).any (fun r => r.1 0 = some 2 ∧ r.1 1 = some 4) =
      true := by
    decide +kernel
  rw [e] at htop
  exact ⟨tcb, e, h, of_decide_eq_true htop⟩

end SmpTKernel
