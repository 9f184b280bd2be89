import SmpTKernel.Basic

/-!
# Wait queues as lists

The wait queue of an object as the list of its tasks, head first, with the routines of `wait.h` and
`wait.c` that look at it: insertion behind the tasks of the same or a higher priority, the common
part `gcb_*` of all objects. `priority` is the current priority of each task (a smaller number is
more urgent).
-/

namespace SmpTKernel

/-- Connect the task to the prioritized wait queue, before the first less urgent task. -/
def queueInsertTpri (priority : Tsk → ℕ) (t : Tsk) : List Tsk → List Tsk
  | [] => [t]
  | q :: qs =>
    if priority q > priority t then t :: q :: qs else q :: queueInsertTpri priority t qs

/-- The queueing part of `gcb_make_wait`. -/
def gcbInsert (objatr : ℕ) (priority : Tsk → ℕ) (t : Tsk) (queue : List Tsk) : List Tsk :=
  if objatr &&& TA_TPRI ≠ 0 then queueInsertTpri priority t queue else queue ++ [t]

/-- `gcb_change_priority`. -/
def gcbChangePriority (priority : Tsk → ℕ) (t : Tsk) (queue : List Tsk) : List Tsk :=
  queueInsertTpri priority t (queue.erase t)

/-- Search the first task of the wait queue, with `t` as if it were queued. -/
def gcbTopOfWaitQueue (objatr : ℕ) (priority : Tsk → ℕ) (t : Tsk) : List Tsk → Tsk
  | [] => t
  | q :: _ =>
    if objatr &&& TA_TPRI = 0 then q else if priority t < priority q then t else q

/-- `is_diswai`: the task may not wait for this factor. -/
def isDiswai (objatr waitmask tskwait : ℕ) : Bool :=
  waitmask &&& tskwait ≠ 0 ∧ objatr &&& TA_NODISWAI = 0

theorem queueInsertTpri_perm (priority : Tsk → ℕ) (t : Tsk) (queue : List Tsk) :
    (queueInsertTpri priority t queue).Perm (t :: queue) := by
  induction queue with
  | nil => exact List.Perm.refl _
  | cons q qs ih =>
    unfold queueInsertTpri
    split_ifs
    · exact List.Perm.refl _
    · exact (ih.cons q).trans (List.Perm.swap t q qs)

theorem gcbInsert_perm (objatr : ℕ) (priority : Tsk → ℕ) (t : Tsk) (queue : List Tsk) :
    (gcbInsert objatr priority t queue).Perm (t :: queue) := by
  unfold gcbInsert
  split_ifs
  · exact queueInsertTpri_perm priority t queue
  · exact List.perm_append_singleton t queue

theorem gcbChangePriority_perm (priority : Tsk → ℕ) {t : Tsk} {queue : List Tsk} (h : t ∈ queue) :
    (gcbChangePriority priority t queue).Perm queue :=
  (queueInsertTpri_perm priority t _).trans (List.perm_cons_erase h).symm

/-- The first task after an insertion is the inserted one, if it is then the top of the queue, or
the first one from before. -/
theorem head?_gcbInsert {objatr : ℕ} {priority : Tsk → ℕ} {t u : Tsk} {queue : List Tsk}
    (hu : u ∈ (gcbInsert objatr priority t queue).head?) :
    u = t ∧ gcbTopOfWaitQueue objatr priority t queue = t ∨ u ∈ queue.head? := by
  unfold gcbInsert at hu
  cases queue with
  | nil =>
    left
    split_ifs at hu <;> exact ⟨(Option.mem_some_iff.mp hu).symm, rfl⟩
  | cons q qs =>
    by_cases htpri : objatr &&& TA_TPRI ≠ 0
    · rw [if_pos htpri] at hu
      unfold queueInsertTpri at hu
      split_ifs at hu with hlt
      · refine Or.inl ⟨(Option.mem_some_iff.mp hu).symm, ?_⟩
        rw [gcbTopOfWaitQueue, if_neg htpri, if_pos hlt]
      · exact Or.inr hu
    · rw [if_neg htpri] at hu
      exact Or.inr hu

/-- Insertion keeps every order that puts the task behind those of the same or a higher priority and
before the others. -/
theorem queueInsertTpri_pairwise {priority : Tsk → ℕ} {R : Tsk → Tsk → Prop} {t : Tsk}
    {queue : List Tsk} (sorted : queue.Pairwise fun q u => priority q ≤ priority u)
    (h : queue.Pairwise R) (hle : ∀ q ∈ queue, priority q ≤ priority t → R q t)
    (hlt : ∀ q ∈ queue, priority t < priority q → R t q) :
    (queueInsertTpri priority t queue).Pairwise R := by
  induction queue with
  | nil => exact List.pairwise_singleton R t
  | cons q qs ih =>
    obtain ⟨hq, sorted⟩ := List.pairwise_cons.mp sorted
    unfold queueInsertTpri
    by_cases hp : priority q > priority t
    · rw [if_pos hp]
      refine List.pairwise_cons.mpr ⟨fun u hu => ?_, h⟩
      rcases List.mem_cons.mp hu with rfl | hu'
      · exact hlt u hu hp
      · exact hlt u hu (hp.trans_le (hq u hu'))
    · rw [if_neg hp]
      obtain ⟨hR, h⟩ := List.pairwise_cons.mp h
      refine List.pairwise_cons.mpr ⟨fun u hu => ?_, ih sorted h (fun u hu =>
        hle u (List.mem_cons_of_mem q hu))
        fun u hu => hlt u (List.mem_cons_of_mem q hu)⟩
      rcases List.mem_cons.mp ((queueInsertTpri_perm priority t qs).subset hu) with rfl | hu
      · exact hle q List.mem_cons_self (not_lt.mp hp)
      · exact hR u hu

theorem queueInsertTpri_sorted {priority : Tsk → ℕ} {t : Tsk} {queue : List Tsk}
    (sorted : queue.Pairwise fun q u => priority q ≤ priority u) :
    (queueInsertTpri priority t queue).Pairwise fun q u => priority q ≤ priority u :=
  queueInsertTpri_pairwise sorted sorted (fun _ _ h => h) fun _ _ h => h.le

theorem gcbInsert_of_top {objatr : ℕ} {priority : Tsk → ℕ} {t : Tsk} {queue : List Tsk}
    (ht : t ∉ queue) (htop : gcbTopOfWaitQueue objatr priority t queue = t) :
    gcbInsert objatr priority t queue = t :: queue := by
  cases queue with
  | nil =>
    unfold gcbInsert
    split_ifs <;> rfl
  | cons q qs =>
    have hne : q ≠ t := (List.ne_of_not_mem_cons ht).symm
    rw [gcbTopOfWaitQueue] at htop
    by_cases hfifo : objatr &&& TA_TPRI = 0
    · rw [if_pos hfifo] at htop
      exact absurd htop hne
    · rw [if_neg hfifo] at htop
      by_cases hlt : priority t < priority q
      · rw [gcbInsert, if_pos hfifo, queueInsertTpri, if_pos hlt]
      · rw [if_neg hlt] at htop
        exact absurd htop hne

end SmpTKernel
