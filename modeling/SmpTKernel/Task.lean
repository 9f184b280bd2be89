import SmpTKernel.Queue
import SmpTKernel.Basic
import SmpTKernel.Bitop

/-!
# Task control blocks and queue links

The kernel threads its queues through `QUEUE` cells that lie in task control blocks (`tskque`) and
in the objects that own a queue. Tasks are numbered; `que` holds the cells of all of them, `tcb` the
other fields. `ready_queue` is the structure `RDYQUE`; its array `tskque[]` is the part of `que`
under the heads `rdy`.
-/

namespace SmpTKernel

open LinkRing

/-- Number of priority levels (internal expression `0 .. NUM_PRI - 1`). -/
abbrev NUM_PRI : ℕ := 140

abbrev MAX_PROC : ℕ := 4

/-- The owner of a queue. -/
inductive QHead
  /-- `ready_queue.tskque[priority]` -/
  | rdy (priority : ℕ)
  deriving DecidableEq, Repr

/-- A `QUEUE *`. -/
inductive Node
  | null
  | que (h : QHead)
  /-- `&tcb->tskque`, which is also `(QUEUE *)tcb`. -/
  | tsk (t : Tsk)
  deriving DecidableEq, Repr

/-- `(TCB *)q`; the cast of a head is no task. -/
def Node.toTcb : Node → Option Tsk
  | tsk t => some t
  | _ => none

@[simp] theorem Node.toTcb_tsk (t : Tsk) : (Node.tsk t).toTcb = some t := rfl

/-- Queue heads and the link cells of the tasks. -/
def queues : Layout Node QHead Tsk where
  head := .que
  elem := .tsk
  head_inj _ _ h := Node.que.inj h
  elem_inj _ _ h := Node.tsk.inj h
  head_ne_elem _ _ h := Node.noConfusion h

@[simp] theorem queues_head (h : QHead) : queues.head h = .que h := rfl

@[simp] theorem queues_elem (t : Tsk) : queues.elem t = .tsk t := rfl

/-- The task control block. -/
structure Tcb where
  tskatr : ℕ
  /-- Current priority. -/
  priority : ℕ
  /-- `TRUE` at wait kernel lock. -/
  klockwait : Bool
  /-- `TRUE` at hold kernel lock. -/
  klocked : Bool
  /-- Continuous execution time counter (ms). -/
  slicecnt : ℕ
  /-- Processors the task is assigned to. -/
  assprc : ℕ
  deriving DecidableEq, Repr

/-- `RDYQUE` without its queues. -/
structure Rdyque where
  bitmap : Bytes
  /-- READY task with kernel lock. -/
  klocktsk : Option Tsk
  /-- The first `num_proc` tasks of the ready queue. -/
  top : ℕ → Option Tsk
  chg : Bool

/-- The memory the ready queue routines work on. -/
structure Core where
  que : Links Node
  tcb : Tsk → Tcb
  ready_queue : Rdyque

/-! ## `queue.h` -/

/-- The removed entry (`NULL` if there is none) and the links afterwards. -/
def queRemoveNext (q : Node) (m : Links Node) : Node × Links Node :=
  if (m q).next = q then (.null, m)
  else
    let entry := (m q).next
    let m := setNext m q (m entry).next
    let m := setPrev m (m entry).next q
    (entry, m)

theorem queRemoveNext_eq {q e : Node} {l : List Node} {m : Links Node} (r : IsRing m q (e :: l)) :
    queRemoveNext q m = (e, queRemove e m) := by
  have hn : (m q).next = e := r.next_head
  have hp : (m e).prev = q := IsRing.prev_mid (a := []) r
  have hqe : q ≠ e := fun c => (List.nodup_cons.mp r.nodup).1 (by simp [c])
  have hne : (m e).next ≠ e := by
    rw [IsRing.next_mid (a := []) r]
    intro c
    have nd := List.nodup_cons.mp (List.nodup_cons.mp r.nodup).2
    cases l with
    | nil => exact hqe c
    | cons x l => exact nd.1 (by simp [← c])
  unfold queRemoveNext queRemove unlink
  rw [hn, if_neg hqe.symm, if_neg hne, hp]
  simp [setNext_apply, hqe.symm, hp]

end SmpTKernel
