import SmpTKernel.Task

/-!
# The ready queue

`ready_queue.h`: a queue for each priority, a bitmap of the priorities in use, and in `top` a copy
of the first `num_proc` tasks, which every operation keeps up to date by shifting and refilling.
-/

namespace SmpTKernel

open LinkRing

variable (numProc : ℕ)

/-- `ready_queue_initialize`: no task is queued. -/
def readyQueueInitialize (c : Core) : Core where
  que := (List.range NUM_PRI).foldl (fun m i => queInit (.que (.rdy i)) m) c.que
  tcb := c.tcb
  ready_queue :=
    { bitmap := fun _ => 0
      klocktsk := none
      top := fun i => if i < MAX_PROC then none else c.ready_queue.top i
      chg := false }

/-- `for (i = num_proc - 1; n < i; i--) top[i] = top[i-1]`, from `i` on. -/
def shiftUp (n : ℕ) : ℕ → (ℕ → Option Tsk) → ℕ → Option Tsk
  | 0, top => top
  | i + 1, top => if n < i + 1 then shiftUp n i (Function.update top (i + 1) (top i)) else top

/-- `for (i = n; i < num_proc - 1; i++) top[i] = top[i+1]`, for `k` turns. -/
def shiftDown : (k i : ℕ) → (ℕ → Option Tsk) → ℕ → Option Tsk
  | 0, _, top => top
  | k + 1, i, top => shiftDown k (i + 1) (Function.update top i (top (i + 1)))

/-- The common part of `update_top_when_insert` and `update_top_when_insert_top`: shift `top[]` at
the first place that is free or whose task is `behind` the new one. -/
def updateTopAt (tcb : Tsk → Tcb) (behind : ℕ → ℕ → Bool) (top : ℕ → Option Tsk) (t : Tsk) :
    ℕ → Option Tsk :=
  match (List.range numProc).find? fun n =>
      (top n).all fun u => behind (tcb u).priority (tcb t).priority with
  | none => top
  | some n => Function.update (shiftUp n (numProc - 1) top) n (some t)

def updateTopWhenInsert (tcb : Tsk → Tcb) (top : ℕ → Option Tsk) (t : Tsk) : ℕ → Option Tsk :=
  updateTopAt numProc tcb (fun p q => p > q) top t

def updateTopWhenInsertTop (tcb : Tsk → Tcb) (top : ℕ → Option Tsk) (t : Tsk) : ℕ → Option Tsk :=
  updateTopAt numProc tcb (fun p q => p ≥ q) top t

def readyQueueInsert (c : Core) (t : Tsk) : Core :=
  let priority := (c.tcb t).priority
  let tcb := Function.update c.tcb t { c.tcb t with slicecnt := 0 }
  let rq := c.ready_queue
  { que := queInsert (.tsk t) (.que (.rdy priority)) c.que
    tcb := tcb
    ready_queue :=
      { bitmap := tstdlibBitset rq.bitmap priority
        klocktsk := if (tcb t).klocked then some t else rq.klocktsk
        top := updateTopWhenInsert numProc tcb rq.top t
        chg := true } }

def readyQueueInsertTop (c : Core) (t : Tsk) : Core :=
  let priority := (c.tcb t).priority
  let rq := c.ready_queue
  { que := queInsert (.tsk t) (c.que (.que (.rdy priority))).next c.que
    tcb := c.tcb
    ready_queue :=
      { bitmap := tstdlibBitset rq.bitmap priority
        klocktsk := if (c.tcb t).klocked then some t else rq.klocktsk
        top := updateTopWhenInsertTop numProc c.tcb rq.top t
        chg := true } }

/-- `get_next_tcb`: the task after `t`, in its own queue or in the next one in use. -/
def getNextTcb (c : Core) (t : Tsk) : Option Tsk :=
  let priority := (c.tcb t).priority
  if (c.que (.tsk t)).next ≠ .que (.rdy priority) then (c.que (.tsk t)).next.toTcb
  else
    match (tstdlibBitsearch1 (NUM_PRI + 1) c.ready_queue.bitmap (priority + 1)
        (NUM_PRI - (priority + 1))).result with
    | some i =>
      if i ≥ 0 then (c.que (.que (.rdy (priority + 1 + i.toNat)))).next.toTcb else none
    | none => none

def updateTopWhenRemove (c : Core) (t : Tsk) : ℕ → Option Tsk :=
  let top := c.ready_queue.top
  match (List.range numProc).find? fun n => some t = top n with
  | none => top
  | some n =>
    if numProc = 1 then Function.update top n (getNextTcb c t)
    else
      let top := shiftDown (numProc - 1 - n) n top
      match top (numProc - 2) with
      | none => top
      | some u => Function.update top (numProc - 1) (getNextTcb c u)

def readyQueueDelete (c : Core) (t : Tsk) : Core :=
  let priority := (c.tcb t).priority
  let rq := c.ready_queue
  let que := queRemove (.tsk t) c.que
  let rq := { rq with
    klocktsk := if rq.klocktsk = some t then none else rq.klocktsk
    bitmap := if isQueEmpty (.que (.rdy priority)) que then tstdlibBitclr rq.bitmap priority
      else rq.bitmap }
  if (c.tcb t).klockwait then
    -- the task was in the wait queue of a kernel lock
    { que := que
      tcb := Function.update c.tcb t { c.tcb t with klockwait := false }
      ready_queue := rq }
  else
    let c : Core := { que := que, tcb := c.tcb, ready_queue := rq }
    { c with ready_queue := { rq with top := updateTopWhenRemove numProc c t, chg := true } }

/-- Clear the time slice counter of `t`. -/
def clearSlicecnt (c : Core) (t : Tsk) : Core :=
  { c with tcb := Function.update c.tcb t { c.tcb t with slicecnt := 0 } }

def readyQueueRotate (c : Core) (priority : ℕ) : Core :=
  let tskque := Node.que (.rdy priority)
  if isQueEmpty tskque c.que then c
  else if (c.que (c.que tskque).next).next ≠ tskque then
    match queRemoveNext tskque c.que with
    | (.tsk t, que) =>
      let c := { c with que := que }
      let c := { c with ready_queue.top := updateTopWhenRemove numProc c t }
      let c := { c with que := queInsert (.tsk t) tskque c.que }
      let c := { c with ready_queue.top := updateTopWhenInsert numProc c.tcb c.ready_queue.top t }
      clearSlicecnt { c with ready_queue.chg := true } t
    | _ => c
  else
    match (c.que tskque).next with
    | .tsk t => clearSlicecnt c t
    | _ => c

/-- The returned flag says whether the task was moved. -/
def readyQueueMoveLast (c : Core) (t : Tsk) : Bool × Core :=
  let tskque := Node.que (.rdy (c.tcb t).priority)
  if (c.que (.tsk t)).next ≠ tskque then
    let c := { c with que := queRemove (.tsk t) c.que }
    let c := { c with ready_queue.top := updateTopWhenRemove numProc c t }
    let c := { c with que := queInsert (.tsk t) tskque c.que }
    let c := { c with ready_queue.top := updateTopWhenInsert numProc c.tcb c.ready_queue.top t }
    (true, clearSlicecnt c t)
  else
    (false, clearSlicecnt c t)

end SmpTKernel
