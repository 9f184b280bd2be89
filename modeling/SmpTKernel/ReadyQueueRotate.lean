import SmpTKernel.ReadyQueueInv

/-!
# Rotating the ready queue

What `tk_rot_rdq` does to the ready queue before tasks are selected anew: a queue that is named is
rotated; `TPRI_RUN` stands for the queue of the first ready task in a handler, and for the place of
the calling task in a task. There may be no ready task when a handler calls, and the calling task
may have been suspended on another processor while it waited to enter the critical section.
-/

namespace SmpTKernel

open LinkRing

/-- Head of the highest ready priority. -/
abbrev TPRI_RUN : ℤ := 0

/-- `CHK_PRI` -/
def chkPri (pri : ℤ) : Bool := 1 ≤ pri ∧ pri ≤ NUM_PRI

/-- `ready_queue_top_priority`, `none` if there is no `top[0]` to read it from. -/
def readyQueueTopPriority (c : Core) : Option ℕ :=
  (c.ready_queue.top 0).map fun t => (c.tcb t).priority

variable (numProc : ℕ)

/-- Rotate the ready queue including the highest priority task. -/
def rotateReadyQueueRun (c : Core) : Option Core :=
  (readyQueueTopPriority c).map (readyQueueRotate numProc c)

/-- `in_indp` -/
def inIndp (taskindp : Bool) (ctxtsk : Option Tsk) : Bool := taskindp || ctxtsk.isNone

/-- The rotation of an accepted call, without the selection after it; `none` if a null pointer is
followed. `taskindp` and `ctxtsk` are those of the own processor. -/
def rotation (c : Core) (taskindp : Bool) (ctxtsk : Option Tsk) (tskpri : ℤ) : Option Core :=
  if tskpri = TPRI_RUN then
    if inIndp taskindp ctxtsk then rotateReadyQueueRun numProc c
    else ctxtsk.map fun t => (readyQueueMoveLast numProc c t).2
  else some (readyQueueRotate numProc c (tskpri - 1).toNat)

/-! ## What is asked -/

/-- The task that is to be moved, if there is one. -/
def toMove (Q : QHead → List Tsk) (taskindp : Bool) (ctxtsk : Option Tsk) (tskpri : ℤ) :
    Option Tsk :=
  if tskpri = TPRI_RUN then if inIndp taskindp ctxtsk then (ordered (rdyQ Q)).head? else ctxtsk
  else (Q (.rdy (tskpri - 1).toNat)).head?

/-- The task goes to the end of its queue, and the others keep their order. -/
def MovedLast (Q : QHead → List Tsk) (t : Tsk) (Q' : QHead → List Tsk) : Prop :=
  ∃ p a b, Q (.rdy p) = a ++ t :: b ∧ Q' = Function.update Q (.rdy p) (a ++ b ++ [t])

/-- The queue of the task's priority has at most one task, and nothing changes. -/
def StaysShort (Q : QHead → List Tsk) (c : Core) (t : Tsk) (Q' : QHead → List Tsk) : Prop :=
  (Q (.rdy (c.tcb t).priority)).length ≤ 1 ∧ Q' = Q

/-- Exactly the task to be moved is moved; nothing changes if there is none, or the selected queue
is too short. -/
structure Rotates (Q : QHead → List Tsk) (c : Core) (taskindp : Bool) (ctxtsk : Option Tsk)
    (tskpri : ℤ) (c' : Core) (Q' : QHead → List Tsk) : Prop where
  call : rotation numProc c taskindp ctxtsk tskpri = some c'
  ready : ReadyInv numProc IsRdy Q' c'
  moved : toMove Q taskindp ctxtsk tskpri = none ∧ Q' = Q ∨
    ∃ t, toMove Q taskindp ctxtsk tskpri = some t ∧ (MovedLast Q t Q' ∨ StaysShort Q c t Q')

/-- The task is queued, or else its queue has at most one task and its own stale link is the one of
the last task there. -/
def QueuedOrLast (Q : QHead → List Tsk) (c : Core) (t : Tsk) : Prop :=
  (∃ p, t ∈ Q (.rdy p)) ∨ (Q (.rdy (c.tcb t).priority)).length ≤ 1 ∧
    (c.que (.tsk t)).next = .que (.rdy (c.tcb t).priority)

/-- With `TPRI_RUN`, a handler needs a ready task, and a task must be ready itself. -/
def HasHead (Q : QHead → List Tsk) (c : Core) (taskindp : Bool) (ctxtsk : Option Tsk) (tskpri : ℤ) :
    Prop :=
  tskpri = TPRI_RUN →
    if inIndp taskindp ctxtsk then ∃ p, Q (.rdy p) ≠ []
    else ∀ t, ctxtsk = some t → QueuedOrLast Q c t

variable {numProc} {Q : QHead → List Tsk} {c : Core} {taskindp : Bool} {ctxtsk : Option Tsk}
  {tskpri : ℤ} {t : Tsk} {p : ℕ}

/-! ## The three ways -/

/-- The first ready task is the head of the queue of its priority. -/
theorem ReadyLinks.head_ordered {live : QHead → Prop} (r : ReadyLinks live Q c)
    (h : (ordered (rdyQ Q)).head? = some t) :
    (c.tcb t).priority < NUM_PRI ∧ ∃ b, Q (.rdy (c.tcb t).priority) = t :: b := by
  obtain ⟨p, hp, ht⟩ := List.mem_flatMap.mp (List.mem_of_mem_head? h)
  have hlt : p < NUM_PRI := List.mem_range.mp hp
  obtain rfl := r.priority p t ht
  refine ⟨hlt, ?_⟩
  have hbefore : before (rdyQ Q) (c.tcb t).priority = [] := by
    by_contra hne
    obtain ⟨u, l, hl⟩ := List.exists_cons_of_ne_nil hne
    rw [ordered_eq hlt, hl] at h
    obtain rfl := Option.some.inj h
    have hu : u ∈ before (rdyQ Q) (c.tcb u).priority := by
      rw [hl]
      exact List.mem_cons_self
    exact absurd (r.priority_before hu) (Nat.lt_irrefl _)
  rw [ordered_eq hlt, hbefore, List.nil_append] at h
  change t ∈ Q (.rdy (c.tcb t).priority) at ht
  cases hq : Q (.rdy (c.tcb t).priority) with
  | nil =>
    rw [hq] at ht
    exact absurd ht List.not_mem_nil
  | cons u b =>
    rw [hq] at h
    obtain rfl := Option.some.inj h
    exact ⟨b, rfl⟩

theorem movedLast_rotate {b : List Tsk} (h : Q (.rdy p) = t :: b) :
    MovedLast Q t (Function.update Q (.rdy p) ((Q (.rdy p)).rotate 1)) := by
  refine ⟨p, [], b, h, ?_⟩
  rw [h, List.rotate_cons_succ, List.rotate_zero]
  rfl

theorem rotates_named (inv : ReadyInv numProc IsRdy Q c) (hne : tskpri ≠ TPRI_RUN)
    (hchk : chkPri tskpri = true) : Rotates numProc Q c taskindp ctxtsk tskpri
      (readyQueueRotate numProc c (tskpri - 1).toNat)
      (Function.update Q (.rdy (tskpri - 1).toNat) ((Q (.rdy (tskpri - 1).toNat)).rotate 1)) := by
  have hrange : 1 ≤ tskpri ∧ tskpri ≤ NUM_PRI := of_decide_eq_true hchk
  have hlt : (tskpri - 1).toNat < NUM_PRI := by omega
  have hmove : toMove Q taskindp ctxtsk tskpri = (Q (.rdy (tskpri - 1).toNat)).head? := if_neg hne
  refine ⟨if_neg hne, inv.rotate hlt, ?_⟩
  rw [hmove]
  cases hq : Q (.rdy (tskpri - 1).toNat) with
  | nil =>
    left
    rw [List.rotate_nil, ← hq, Function.update_eq_self]
    exact ⟨congrArg _ hq, rfl⟩
  | cons t b =>
    right
    rw [← hq]
    exact ⟨t, congrArg _ hq, Or.inl (movedLast_rotate hq)⟩

theorem rotation_run (hindp : inIndp taskindp ctxtsk = true) :
    rotation numProc c taskindp ctxtsk TPRI_RUN = rotateReadyQueueRun numProc c := by
  unfold rotation
  rw [if_pos rfl, if_pos hindp]

theorem toMove_run (hindp : inIndp taskindp ctxtsk = true) :
    toMove Q taskindp ctxtsk TPRI_RUN = (ordered (rdyQ Q)).head? := by
  unfold toMove
  rw [if_pos rfl, if_pos hindp]

theorem rotates_run (inv : ReadyInv numProc IsRdy Q c) (hn : 0 < numProc)
    (hindp : inIndp taskindp ctxtsk = true) (hh : (ordered (rdyQ Q)).head? = some t) :
    Rotates numProc Q c taskindp ctxtsk TPRI_RUN
      (readyQueueRotate numProc c (c.tcb t).priority)
      (Function.update Q (.rdy (c.tcb t).priority) ((Q (.rdy (c.tcb t).priority)).rotate 1)) := by
  obtain ⟨hlt, b, hq⟩ := inv.head_ordered hh
  refine ⟨?_, inv.rotate hlt, Or.inr ⟨t, (toMove_run hindp).trans hh, Or.inl (movedLast_rotate hq)⟩⟩
  rw [rotation_run hindp, rotateReadyQueueRun, readyQueueTopPriority, inv.top 0 hn,
    ← List.head?_eq_getElem?, hh]
  rfl

theorem head_ordered_iff (inv : ReadyInv numProc IsRdy Q c) :
    (∃ t, (ordered (rdyQ Q)).head? = some t) ↔ ∃ p, Q (.rdy p) ≠ [] := by
  constructor
  · rintro ⟨t, hh⟩
    obtain ⟨-, b, hq⟩ := inv.head_ordered hh
    exact ⟨_, by rw [hq]; exact List.cons_ne_nil t b⟩
  · rintro ⟨p, hp⟩
    obtain ⟨t, l, hl⟩ := List.exists_cons_of_ne_nil hp
    have ht : t ∈ Q (.rdy p) := by
      rw [hl]
      exact List.mem_cons_self
    have hmem : t ∈ ordered (rdyQ Q) :=
      List.mem_flatMap.mpr ⟨p, List.mem_range.mpr (inv.lt_of_mem ht), ht⟩
    cases hh : (ordered (rdyQ Q)).head? with
    | none => exact absurd (List.head?_eq_none_iff.mp hh ▸ hmem) List.not_mem_nil
    | some u => exact ⟨u, rfl⟩

theorem rotation_ctx :
    rotation numProc c false (some t) TPRI_RUN = some (readyQueueMoveLast numProc c t).2 := rfl

theorem toMove_ctx : toMove Q false (some t) TPRI_RUN = some t := rfl

theorem rotates_ctx (inv : ReadyInv numProc IsRdy Q c) {a b : List Tsk}
    (hq : Q (.rdy p) = a ++ t :: b) :
    Rotates numProc Q c false (some t) TPRI_RUN (readyQueueMoveLast numProc c t).2
      (Function.update Q (.rdy p) (a ++ b ++ [t])) :=
  ⟨rotation_ctx, inv.moveLast hq, Or.inr ⟨t, toMove_ctx, Or.inl ⟨p, a, b, hq, rfl⟩⟩⟩

theorem rotates_short (inv : ReadyInv numProc IsRdy Q c)
    (hlen : (Q (.rdy (c.tcb t).priority)).length ≤ 1)
    (hnext : (c.que (.tsk t)).next = .que (.rdy (c.tcb t).priority)) :
    Rotates numProc Q c false (some t) TPRI_RUN (readyQueueMoveLast numProc c t).2 Q := by
  refine ⟨rotation_ctx, ?_, Or.inr ⟨t, toMove_ctx, Or.inr ⟨hlen, rfl⟩⟩⟩
  unfold readyQueueMoveLast
  rw [if_neg (not_not.mpr hnext)]
  exact inv.clearSlicecnt t

end SmpTKernel
