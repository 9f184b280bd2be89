import SmpTKernel.ReadyQueue

/-!
# Order of precedence and its cached prefix

The queues by priority are one list, `ordered`. `Caches` says that `top[]` holds its first
`num_proc` tasks; the shift and refill loops of `ready_queue.h` keep this when the list gains or
loses a task at any place.
-/

namespace SmpTKernel

open LinkRing

/-! ## Order of precedence -/

/-- The tasks of higher precedence than priority `p`. -/
def before (q : ℕ → List Tsk) (p : ℕ) : List Tsk := (List.range p).flatMap q

/-- The tasks of lower precedence than priority `p`. -/
def after (q : ℕ → List Tsk) (p : ℕ) : List Tsk :=
  (List.range' (p + 1) (NUM_PRI - (p + 1))).flatMap q

/-- All queued tasks in order of precedence. -/
def ordered (q : ℕ → List Tsk) : List Tsk := (List.range NUM_PRI).flatMap q

theorem ordered_split (q : ℕ → List Tsk) {p : ℕ} (hp : p < NUM_PRI) :
    ordered q = before q p ++ q p ++ after q p := by
  have h : List.range NUM_PRI =
      List.range p ++ p :: List.range' (p + 1) (NUM_PRI - (p + 1)) := by
    rw [List.range_eq_range', List.range_eq_range', ← List.range'_succ]
    have := List.range'_append_1 (s := 0) (m := p) (n := NUM_PRI - (p + 1) + 1)
    rw [Nat.zero_add] at this
    rw [this]
    congr 1
    omega
  unfold ordered before after
  rw [h, List.flatMap_append, List.flatMap_cons, List.append_assoc]

theorem before_congr {q q' : ℕ → List Tsk} {p : ℕ} (h : ∀ r < p, q' r = q r) :
    before q' p = before q p := by
  unfold before
  exact List.flatMap_congr fun r hr => h r (List.mem_range.mp hr)

theorem after_congr {q q' : ℕ → List Tsk} {p : ℕ} (h : ∀ r, p < r → q' r = q r) :
    after q' p = after q p := by
  unfold after
  refine List.flatMap_congr fun r hr => h r ?_
  have := List.mem_range'_1.mp hr
  omega

theorem mem_before {q : ℕ → List Tsk} {p : ℕ} {t : Tsk} :
    t ∈ before q p ↔ ∃ r < p, t ∈ q r := by
  simp [before, List.mem_flatMap]

theorem mem_after {q : ℕ → List Tsk} {p : ℕ} {t : Tsk} :
    t ∈ after q p ↔ ∃ r, p < r ∧ r < NUM_PRI ∧ t ∈ q r := by
  unfold after
  rw [List.mem_flatMap]
  refine exists_congr fun r => ?_
  rw [List.mem_range'_1]
  constructor
  · rintro ⟨h, ht⟩
    exact ⟨by omega, by omega, ht⟩
  · rintro ⟨h₁, h₂, ht⟩
    exact ⟨by omega, ht⟩

/-- The first task after priority `p` is the first one of the next queue in use. -/
theorem head?_after {q : ℕ → List Tsk} {p i : ℕ} (hi : p + 1 + i < NUM_PRI)
    (he : ∀ j < i, q (p + 1 + j) = []) (hne : q (p + 1 + i) ≠ []) :
    (after q p).head? = (q (p + 1 + i)).head? := by
  have h : List.range' (p + 1) (NUM_PRI - (p + 1)) = List.range' (p + 1) i ++
      (p + 1 + i) :: List.range' (p + 1 + i + 1) (NUM_PRI - (p + 1 + i + 1)) := by
    rw [← List.range'_succ, List.range'_append_1]
    congr 1
    omega
  have hnil : (List.range' (p + 1) i).flatMap q = [] := by
    refine List.flatMap_eq_nil_iff.mpr fun r hr => ?_
    have := List.mem_range'_1.mp hr
    have e := he (r - (p + 1)) (by omega)
    rwa [show p + 1 + (r - (p + 1)) = r by omega] at e
  unfold after
  rw [h, List.flatMap_append, hnil, List.nil_append, List.flatMap_cons]
  exact List.head?_append_of_ne_nil _ hne

theorem after_eq_nil {q : ℕ → List Tsk} {p : ℕ}
    (he : ∀ j < NUM_PRI - (p + 1), q (p + 1 + j) = []) : after q p = [] := by
  refine List.flatMap_eq_nil_iff.mpr fun r hr => ?_
  have := List.mem_range'_1.mp hr
  have e := he (r - (p + 1)) (by omega)
  rwa [show p + 1 + (r - (p + 1)) = r by omega] at e

/-! ## A prefix kept in an array -/

variable {numProc : ℕ}

/-- `top` holds the first `num_proc` tasks of `l`, and `NULL` after them. -/
def Caches (numProc : ℕ) (top : ℕ → Option Tsk) (l : List Tsk) : Prop :=
  ∀ i < numProc, top i = l[i]?

theorem shiftUp_apply (n : ℕ) : ∀ (i : ℕ) (top : ℕ → Option Tsk) (k : ℕ),
    shiftUp n i top k = if n < k ∧ k ≤ i then top (k - 1) else top k
  | 0, top, k => by
    unfold shiftUp
    rw [if_neg (by omega)]
  | i + 1, top, k => by
    unfold shiftUp
    by_cases h : n < i + 1
    · rw [if_pos h, shiftUp_apply n i]
      by_cases hk : k = i + 1
      · subst hk
        rw [if_neg (by omega), if_pos (by omega), Function.update_self, Nat.add_sub_cancel]
      · by_cases hk' : n < k ∧ k ≤ i
        · rw [if_pos hk', if_pos (by omega), Function.update_of_ne (by omega)]
        · rw [if_neg hk', if_neg (by omega), Function.update_of_ne hk]
    · rw [if_neg h, if_neg (by omega)]

theorem shiftDown_apply : ∀ (k i : ℕ) (top : ℕ → Option Tsk) (j : ℕ),
    shiftDown k i top j = if i ≤ j ∧ j < i + k then top (j + 1) else top j
  | 0, i, top, j => by
    unfold shiftDown
    rw [if_neg (by omega)]
  | k + 1, i, top, j => by
    unfold shiftDown
    rw [shiftDown_apply k (i + 1)]
    by_cases hj : j = i
    · subst hj
      rw [if_neg (by omega), if_pos (by omega), Function.update_self]
    · by_cases hj' : i + 1 ≤ j ∧ j < i + 1 + k
      · rw [if_pos hj', if_pos (by omega), Function.update_of_ne (by omega)]
      · rw [if_neg hj', if_neg (by omega), Function.update_of_ne hj]

/-- Insertion into the cached list: before `B`, whose tasks are the ones behind the new task. -/
theorem Caches.insert (tcb : Tsk → Tcb) (behind : ℕ → ℕ → Bool) {top : ℕ → Option Tsk} {t : Tsk}
    {A B : List Tsk} (hc : Caches numProc top (A ++ B))
    (hA : ∀ u ∈ A, behind (tcb u).priority (tcb t).priority = false)
    (hB : ∀ u ∈ B, behind (tcb u).priority (tcb t).priority = true) :
    Caches numProc (updateTopAt numProc tcb behind top t) (A ++ t :: B) := by
  have hfree : ∀ n < numProc,
      ((top n).all fun u => behind (tcb u).priority (tcb t).priority) = decide (A.length ≤ n) := by
    intro n hn
    rw [hc n hn]
    by_cases h : A.length ≤ n
    · rw [List.getElem?_append_right h, decide_eq_true h]
      cases e : B[n - A.length]? with
      | none => rfl
      | some u => exact hB u (List.mem_of_getElem? e)
    · rw [List.getElem?_append_left (by omega), List.getElem?_eq_getElem (by omega),
        decide_eq_false h]
      exact hA _ (List.getElem_mem _)
  unfold updateTopAt
  by_cases hn : A.length < numProc
  · have hf : ((List.range numProc).find? fun n =>
        (top n).all fun u => behind (tcb u).priority (tcb t).priority) = some A.length := by
      rw [List.find?_range_eq_some]
      refine ⟨by rw [hfree _ hn]; simp, List.mem_range.mpr hn, fun j hj => ?_⟩
      rw [hfree j (by omega)]
      simpa using hj
    intro i hi
    rw [hf]
    show Function.update (shiftUp A.length (numProc - 1) top) A.length (some t) i = _
    rcases Nat.lt_trichotomy i A.length with h | h | h
    · rw [Function.update_of_ne (by omega), shiftUp_apply, if_neg (by omega), hc i hi,
        List.getElem?_append_left h, List.getElem?_append_left h]
    · subst h
      rw [Function.update_self, List.getElem?_append_right le_rfl]
      simp
    · obtain ⟨k, rfl⟩ : ∃ k, i = A.length + (k + 1) := ⟨i - A.length - 1, by omega⟩
      rw [Function.update_of_ne (by omega), shiftUp_apply, if_pos (by omega),
        hc _ (by omega), List.getElem?_append_right (by omega),
        List.getElem?_append_right (by omega)]
      simp only [Nat.add_sub_cancel_left, List.getElem?_cons_succ]
      congr 1
      omega
  · have hf : ((List.range numProc).find? fun n =>
        (top n).all fun u => behind (tcb u).priority (tcb t).priority) = none := by
      rw [List.find?_range_eq_none]
      intro i hi
      rw [hfree i hi]
      simp; omega
    intro i hi
    rw [hf]
    show top i = _
    rw [hc i hi, List.getElem?_append_left (by omega), List.getElem?_append_left (by omega)]

/-- Removal from the cached list. The refill is the successor, in the list that is left, of the last
task kept; a single processor has no task kept and reads the successor of the removed one. -/
theorem Caches.remove {c : Core} {t : Tsk} {A B : List Tsk}
    (hc : Caches numProc c.ready_queue.top (A ++ t :: B)) (ht : t ∉ A)
    (hself : A = [] → getNextTcb c t = B.head?)
    (hnext : ∀ i u, (A ++ B)[i]? = some u → getNextTcb c u = (A ++ B)[i + 1]?) :
    Caches numProc (updateTopWhenRemove numProc c t) (A ++ B) := by
  have hat : ∀ n < numProc, n ≤ A.length →
      (decide (some t = c.ready_queue.top n)) = decide (n = A.length) := by
    intro n hn hle
    rw [hc n hn]
    refine decide_eq_decide.mpr ⟨fun h => ?_, fun h => ?_⟩
    · by_contra hne
      rw [List.getElem?_append_left (by omega)] at h
      exact ht (List.mem_of_getElem? h.symm)
    · subst h
      simp
  unfold updateTopWhenRemove
  by_cases hn : A.length < numProc
  swap
  · have hf : ((List.range numProc).find? fun n => decide (some t = c.ready_queue.top n)) =
        none := by
      rw [List.find?_range_eq_none]
      intro i hi
      rw [hat i hi (by omega)]
      simp; omega
    intro i hi
    simp only [hf]
    rw [hc i hi, List.getElem?_append_left (by omega), List.getElem?_append_left (by omega)]
  have hf : ((List.range numProc).find? fun n => decide (some t = c.ready_queue.top n)) =
      some A.length := by
    rw [List.find?_range_eq_some]
    refine ⟨by rw [hat _ hn le_rfl]; simp, List.mem_range.mpr hn, fun j hj => ?_⟩
    rw [hat j (by omega) (by omega)]
    simp; omega
  simp only [hf]
  by_cases h1 : numProc = 1
  · intro i hi
    have hA : A = [] := List.length_eq_zero_iff.mp (by omega)
    have hi0 : i = 0 := by omega
    rw [if_pos h1, hA, hi0]
    simp only [List.length_nil, Function.update_self, List.nil_append]
    rw [hself hA, List.head?_eq_getElem?]
  rw [if_neg h1]
  have hshift : ∀ i < numProc - 1,
      shiftDown (numProc - 1 - A.length) A.length c.ready_queue.top i = (A ++ B)[i]? := by
    intro i hi
    rw [shiftDown_apply]
    by_cases h : i < A.length
    · rw [if_neg (by omega), hc i (by omega), List.getElem?_append_left h,
        List.getElem?_append_left h]
    · rw [if_pos (by omega), hc _ (by omega), List.getElem?_append_right (by omega),
        List.getElem?_append_right (by omega), Nat.sub_add_comm (by omega),
        List.getElem?_cons_succ]
  have hlast : shiftDown (numProc - 1 - A.length) A.length c.ready_queue.top (numProc - 1) =
      (A ++ t :: B)[numProc - 1]? := by
    rw [shiftDown_apply, if_neg (by omega), hc _ (by omega)]
  have hpen := hshift (numProc - 2) (by omega)
  intro i hi
  rcases hu : shiftDown (numProc - 1 - A.length) A.length c.ready_queue.top (numProc - 2) with _ | u
  · -- nothing is left past the shifted tasks
    rw [hpen] at hu
    by_cases hi' : i < numProc - 1
    · exact hshift i hi'
    · have hlen : (A ++ B).length ≤ numProc - 2 := List.getElem?_eq_none_iff.mp hu
      have : i = numProc - 1 := by omega
      subst this
      show shiftDown _ _ _ _ = _
      rw [hlast, List.getElem?_eq_none, List.getElem?_eq_none]
      · omega
      · simp only [List.length_append, List.length_cons] at hlen ⊢
        omega
  · rw [hpen] at hu
    by_cases hi' : i < numProc - 1
    · show Function.update _ _ _ i = _
      rw [Function.update_of_ne (by omega)]
      exact hshift i hi'
    · have : i = numProc - 1 := by omega
      subst this
      show Function.update _ _ _ _ = _
      rw [Function.update_self, hnext _ _ hu]
      congr 1
      omega

end SmpTKernel
