import SmpTKernel.ReadyQueueRotate
import SmpTKernel.Reschedule

/-!
# Scheduling and dispatching on the processors

`task.c`, `wait.c`, `task_manage.c`, `task_sync.c` as far as they touch the ready queue,
`timer_handler`'s time slices, and the dispatcher (`cpu_status.h`, `cpu_calls.c`,
`cpu_support_c.c`). A system call changes the schedule by calls of these functions between
`BEGIN_CRITICAL_SECTION` and `END_CRITICAL_SECTION`. A processor that leaves its task first stores
the context and has no task at all (`into_dsp`); it takes the scheduled task once no other processor
is in it (`chk_restore`).
-/

namespace SmpTKernel

open LinkRing

/-- The tasks and the processors. -/
structure Smp extends Schedule, Cpus, Slices where
  state : Tsk → TaskState
  ipriority : Tsk → ℕ
  /-- The control block is to be returned when the processor leaves the task. -/
  stkfree : Tsk → Bool

namespace Smp

variable (numProc NUM_TSKID : ℕ)

/-- The turns that the loop of `ready_queue_top` is given. -/
abbrev fuel : ℕ := NUM_TSKID + 1

/-- Check tcb is scheduled. -/
def isSchedtsk (s : Smp) (tcb : Tsk) : Bool :=
  (List.range numProc).any fun i => s.schedtsk i = some tcb

/-- Check tcb is context. -/
def isCtxtsk (s : Smp) (tcb : Tsk) : Bool := (List.range numProc).any fun i => s.ctxtsk i = some tcb

/-- Get processor ID from context. -/
def getPridFromCtx (s : Smp) (tcb : Tsk) : ℕ :=
  ((List.range numProc).find? fun i => s.ctxtsk i = some tcb).getD 0

def setState (s : Smp) (tcb : Tsk) (state : TaskState) : Smp :=
  { s with state := Function.update s.state tcb state }

/-- Assign members of the control block. -/
def setTcb (s : Smp) (tcb : Tsk) (f : Tcb → Tcb) : Smp :=
  { s with core := { s.core with tcb := Function.update s.core.tcb tcb (f (s.core.tcb tcb)) } }

/-- `ready_queue_top(&ready_queue, schedtsk)`. -/
def readyQueueTop (s : Smp) : Option Smp :=
  (SmpTKernel.readyQueueTop numProc s.core s.toCpus (fuel NUM_TSKID)).map fun r =>
    { s with core := r.2, schedtsk := r.1 }

/-- Set task to READY state. -/
def makeReady (s : Smp) (tcb : Tsk) : Smp :=
  let s := s.setState tcb .ready
  { s with core := readyQueueInsert numProc s.core tcb }

/-- Set task to non-executable state. -/
def makeNonReady (s : Smp) (tcb : Tsk) : Option Smp :=
  let s := { s with core := readyQueueDelete numProc s.core tcb }
  if s.isSchedtsk numProc tcb then s.readyQueueTop numProc NUM_TSKID else some s

/-- Change task priority. -/
def changeTaskPriority (s : Smp) (tcb : Tsk) (priority : ℕ) : Smp :=
  if s.state tcb = .ready then
    let s := { s with core := readyQueueDelete numProc s.core tcb }
    let s := s.setTcb tcb fun c => { c with priority := priority }
    { s with core := readyQueueInsert numProc s.core tcb }
  else s.setTcb tcb fun c => { c with priority := priority }

/-- Update schedtsk. -/
def updateSchedtsk (s : Smp) : Option Smp :=
  (SmpTKernel.updateSchedtsk numProc s.toSlices s.toCpus (fuel NUM_TSKID) s.toSchedule).map fun r =>
    { s with toSchedule := r.2 }

/-- Rotate ready queue. -/
def rotateReadyQueue (s : Smp) (priority : ℕ) : Smp :=
  { s with core := readyQueueRotate numProc s.core priority }

/-- Rotate the ready queue including the task the own processor is executing. -/
def rotateReadyQueueCtx (s : Smp) (prid : ℕ) : Option Smp :=
  match s.ctxtsk prid with
  | none => none
  | some tcb =>
    let r := readyQueueMoveLast numProc s.core tcb
    let s := { s with core := r.2 }
    if r.1 then
      (reschedule numProc s.toSlices s.toCpus (fuel NUM_TSKID) s.toSchedule).map fun r =>
        { s with toSchedule := r.2 }
    else some s

/-- Prepare task execution. -/
def makeDormant (s : Smp) (tcb : Tsk) : Smp :=
  let s := s.setState tcb .dormant
  let s := s.setTcb tcb fun c =>
    { c with priority := s.ipriority tcb, klockwait := false, klocked := false }
  { s with
    stkfree := Function.update s.stkfree tcb false, slicetime := Function.update s.slicetime tcb 0 }

/-- Release wait state of the task. -/
def makeNonWait (s : Smp) (tcb : Tsk) : Smp :=
  if s.state tcb = .wait then s.makeReady numProc tcb else s.setState tcb .suspend

/-- Change the active task state to wait state. -/
def makeWait (s : Smp) (prid : ℕ) : Option Smp :=
  match s.ctxtsk prid with
  | none => none
  | some tcb =>
    match s.state tcb with
    | .ready => (s.makeNonReady numProc NUM_TSKID tcb).map fun s => s.setState tcb .wait
    | .suspend => some (s.setState tcb .waitsus)
    | _ => some s

/-- Start task. -/
def tkStaTsk (s : Smp) (tcb : Tsk) : Smp :=
  if s.state tcb ≠ .dormant then s
  else if s.isCtxtsk numProc tcb then s
  else s.makeReady numProc tcb

/-- The part of `_ter_tsk` that takes the task from the ready queue. -/
def terTsk (s : Smp) (tcb : Tsk) : Option Smp :=
  if s.state tcb = .ready then s.makeNonReady numProc NUM_TSKID tcb else some s

/-- Termination of other task. -/
def tkTerTsk (s : Smp) (tcb : Tsk) : Option Smp :=
  if s.state tcb = .nonexist ∨ s.state tcb = .dormant then some s
  else
    let s := if s.isCtxtsk numProc tcb then
        { s with
          dispatch_disabled :=
            Function.update s.dispatch_disabled (s.getPridFromCtx numProc tcb) DDS_ENABLE }
      else s
    (s.terTsk numProc NUM_TSKID tcb).map fun s => s.makeDormant tcb

/-- Suspend task; the count of the requests is left aside. -/
def tkSusTsk (s : Smp) (tcb : Tsk) : Option Smp :=
  if s.state tcb = .nonexist ∨ s.state tcb = .dormant then some s
  else if s.isCtxtsk numProc tcb ∧
      s.dispatch_disabled (s.getPridFromCtx numProc tcb) ≥ DDS_DISABLE then some s
  else
    match s.state tcb with
    | .ready => (s.makeNonReady numProc NUM_TSKID tcb).map fun s => s.setState tcb .suspend
    | .wait => some (s.setState tcb .waitsus)
    | _ => some s

/-- Resume task, when no request is left. -/
def tkRsmTsk (s : Smp) (tcb : Tsk) : Smp :=
  match s.state tcb with
  | .suspend => s.makeReady numProc tcb
  | .waitsus => s.setState tcb .wait
  | _ => s

/-- One turn of the loop of `timer_handler` over `ctxtsk[]`. -/
def timeSliceTurn (r : Bool × Smp) (i : ℕ) : Bool × Smp :=
  match r.2.ctxtsk i with
  | none => r
  | some tcb =>
    if r.2.isSchedtsk numProc tcb then
      let m := timeSliceSchedule numProc r.2.toSlices r.2.core (some tcb)
      (r.1 || m.1, { r.2 with core := m.2 })
    else r

/-- The time slices of the tasks in execution. -/
def timerSlices (s : Smp) : Option Smp :=
  let r := (List.range MAX_PROC).foldl (timeSliceTurn numProc) (false, s)
  if r.1 then r.2.readyQueueTop numProc NUM_TSKID else some r.2

end Smp

/-! ## Critical sections -/

/-- What a system call or the timer does to the schedule inside a critical section. -/
inductive SchedCall
  | makeNonWait (tcb : Tsk)
  | makeWait
  | changeTaskPriority (tcb : Tsk) (priority : ℕ)
  | rotateReadyQueue (priority : ℕ)
  | rotateReadyQueueRun
  | rotateReadyQueueCtx
  | staTsk (tcb : Tsk)
  | terTsk (tcb : Tsk)
  | susTsk (tcb : Tsk)
  | rsmTsk (tcb : Tsk)
  | timerSlices
  deriving DecidableEq, Repr

namespace SchedCall

variable (numProc NUM_TSKID prid : ℕ)

/-- On the processor `prid`. -/
def exec (s : Smp) : SchedCall → Option Smp
  | makeNonWait tcb => some (s.makeNonWait numProc tcb)
  | makeWait => s.makeWait numProc NUM_TSKID prid
  | changeTaskPriority tcb priority => some (s.changeTaskPriority numProc tcb priority)
  | rotateReadyQueue priority => some (s.rotateReadyQueue numProc priority)
  | rotateReadyQueueRun =>
    (SmpTKernel.rotateReadyQueueRun numProc s.core).map fun c => { s with core := c }
  | rotateReadyQueueCtx => s.rotateReadyQueueCtx numProc NUM_TSKID prid
  | staTsk tcb => some (s.tkStaTsk numProc tcb)
  | terTsk tcb => s.tkTerTsk numProc NUM_TSKID tcb
  | susTsk tcb => s.tkSusTsk numProc NUM_TSKID tcb
  | rsmTsk tcb => some (s.tkRsmTsk numProc tcb)
  | timerSlices => s.timerSlices numProc NUM_TSKID

/-- What the callers of these functions see to. `tk_rot_rdq(TPRI_RUN)` sees to nothing, and is to
find a ready task. -/
def Fits (s : Smp) : SchedCall → Prop
  | makeNonWait tcb => s.state tcb = .wait ∨ s.state tcb = .waitsus
  | makeWait => s.ctxtsk prid ≠ none ∧ s.dispatch_disabled prid = DDS_ENABLE
  | changeTaskPriority tcb priority => s.state tcb ≠ .nonexist ∧ priority < NUM_PRI
  | rotateReadyQueue priority => priority < NUM_PRI
  | rotateReadyQueueRun => s.core.ready_queue.top 0 ≠ none
  | rotateReadyQueueCtx => ∃ tcb ∈ s.ctxtsk prid, s.state tcb = .ready
  | _ => True

/-- One call after the other. -/
def execAll : List SchedCall → Smp → Option Smp
  | [], s => some s
  | call :: calls, s => (call.exec numProc NUM_TSKID prid s).bind (execAll calls)

def FitAll : List SchedCall → Smp → Prop
  | [], _ => True
  | call :: calls, s =>
    call.Fits prid s ∧ ∀ s' ∈ call.exec numProc NUM_TSKID prid s, FitAll calls s'

end SchedCall

/-! ## The dispatcher -/

namespace Smp

variable (numProc NUM_TSKID prid : ℕ)

/-- Into dispatch. -/
def intoDsp (s : Smp) : Smp :=
  match s.ctxtsk prid with
  | none => s
  | some tcb =>
    -- the delayed `_del_tsk`
    let s := if s.stkfree tcb then
        { s.setState tcb .nonexist with stkfree := Function.update s.stkfree tcb false }
      else s
    { s with ctxtsk := Function.update s.ctxtsk prid none }

/-- Check context restore. -/
def chkRestore (s : Smp) : Smp :=
  match s.schedtsk prid with
  | none => s
  | some tcb =>
    if s.isCtxtsk numProc tcb then s
    else { s with ctxtsk := Function.update s.ctxtsk prid (some tcb) }

/-- Check dispatch, at the return from an interrupt to a task. -/
def chkDsp (s : Smp) : Bool :=
  s.dispatch_disabled prid = DDS_ENABLE ∧ s.ctxtsk prid ≠ s.schedtsk prid

/-- `END_CRITICAL_SECTION`; `di` says that interrupts are disabled, or that the processor is in a
task-independent part. -/
def endCriticalSection (di : Bool) (s : Smp) : Option Smp :=
  (s.updateSchedtsk numProc NUM_TSKID).map fun s =>
    if ¬di ∧ s.chkDsp prid then s.intoDsp prid else s

/-- `END_CRITICAL_FORCE`. -/
def endCriticalForce (s : Smp) : Option Smp :=
  (s.updateSchedtsk numProc NUM_TSKID).map fun s => s.intoDsp prid

/-- The task in execution has been terminated, and `BEGIN_CRITICAL_SECTION` leaves it. -/
def forced (s : Smp) : Bool :=
  (s.ctxtsk prid).any fun tcb => s.state tcb = .dormant ∨ s.state tcb = .nonexist

/-- The task in execution ends: `_ter_tsk`, and `make_dormant`, or the marks for its deletion. -/
def endSelf (delete : Bool) (s : Smp) : Option Smp :=
  match s.ctxtsk prid with
  | none => none
  | some tcb =>
    let s := { s with dispatch_disabled := Function.update s.dispatch_disabled prid DDS_ENABLE }
    (s.terTsk numProc NUM_TSKID tcb).map fun s =>
      if delete then { s.setState tcb .nonexist with stkfree := Function.update s.stkfree tcb true }
      else s.makeDormant tcb

/-- End its own task; `calls` serve those that it kept waiting. -/
def tkExtTsk (calls : List SchedCall) (s : Smp) : Option Smp :=
  ((s.endSelf numProc NUM_TSKID prid false).bind
    (SchedCall.execAll numProc NUM_TSKID prid calls)).bind (endCriticalForce numProc NUM_TSKID prid)

/-- End and delete its own task. -/
def tkExdTsk (calls : List SchedCall) (s : Smp) : Option Smp :=
  ((s.endSelf numProc NUM_TSKID prid true).bind
    (SchedCall.execAll numProc NUM_TSKID prid calls)).bind (endCriticalForce numProc NUM_TSKID prid)

/-- Create task, with a free control block. -/
def tkCreTsk (s : Smp) (tcb : Tsk) (tskatr assprc itskpri : ℕ) : Smp :=
  if tskatr &&& TA_ASSPRC ≠ 0 ∧
      (assprc = 0 ∨ assprc &&& (0xFFFFFFFF ^^^ ALL_CORE_BIT numProc) ≠ 0) then s
  else if ¬chkPri itskpri then s
  else if s.state tcb ≠ .nonexist ∨ s.stkfree tcb then s
  else
    let s := { s with ipriority := Function.update s.ipriority tcb (itskpri - 1) }
    let s := s.setTcb tcb fun c =>
      { c with
        tskatr := tskatr
        assprc := if tskatr &&& TA_ASSPRC ≠ 0 then assprc else ALL_CORE_BIT numProc }
    s.makeDormant tcb

/-- Delete task. -/
def tkDelTsk (s : Smp) (tcb : Tsk) : Smp :=
  if s.state tcb ≠ .dormant then s
  else if s.isCtxtsk numProc tcb then
    { s.setState tcb .nonexist with stkfree := Function.update s.stkfree tcb true }
  else s.setState tcb .nonexist

/-- Change slice time. The section ends without a new selection. -/
def tkChgSlt (s : Smp) (tcb : Tsk) (slicetime : ℕ) : Smp :=
  if s.state tcb = .nonexist then s
  else { s with slicetime := Function.update s.slicetime tcb slicetime }

/-- Dispatch disable. -/
def tkDisDsp (s : Smp) : Smp :=
  match s.ctxtsk prid with
  | none => s
  | some tcb =>
    -- the caller tries again until it is resumed
    if s.state tcb = .suspend ∨ s.state tcb = .waitsus then s
    else { s with dispatch_disabled := Function.update s.dispatch_disabled prid DDS_DISABLE }

/-- Dispatch enable. -/
def tkEnaDsp (di : Bool) (s : Smp) : Option Smp :=
  let s := { s with dispatch_disabled := Function.update s.dispatch_disabled prid DDS_ENABLE }
  (s.readyQueueTop numProc NUM_TSKID).bind fun s => s.endCriticalSection numProc NUM_TSKID prid di

end Smp

/-- What happens on the processors, from one critical section to the next. -/
inductive SmpOp
  | criticalSection (prid : ℕ) (calls : List SchedCall) (di : Bool)
  | extTsk (prid : ℕ) (calls : List SchedCall)
  | exdTsk (prid : ℕ) (calls : List SchedCall)
  | creTsk (tcb : Tsk) (tskatr assprc itskpri : ℕ)
  | delTsk (tcb : Tsk)
  | chgSlt (tcb : Tsk) (slicetime : ℕ)
  | disDsp (prid : ℕ)
  | enaDsp (prid : ℕ) (di : Bool)
  /-- The end of an interrupt. -/
  | retInt (prid : ℕ)
  | forceDispatch (prid : ℕ)
  /-- The dispatcher tries to take the scheduled task. -/
  | restore (prid : ℕ)
  deriving DecidableEq, Repr

namespace SmpOp

variable (numProc NUM_TSKID : ℕ)

def exec (s : Smp) : SmpOp → Option Smp
  | criticalSection prid calls di =>
    (SchedCall.execAll numProc NUM_TSKID prid calls s).bind
      (Smp.endCriticalSection numProc NUM_TSKID prid di)
  | extTsk prid calls => s.tkExtTsk numProc NUM_TSKID prid calls
  | exdTsk prid calls => s.tkExdTsk numProc NUM_TSKID prid calls
  | creTsk tcb tskatr assprc itskpri => some (s.tkCreTsk numProc tcb tskatr assprc itskpri)
  | delTsk tcb => some (s.tkDelTsk numProc tcb)
  | chgSlt tcb slicetime => some (s.tkChgSlt tcb slicetime)
  | disDsp prid => some (s.tkDisDsp prid)
  | enaDsp prid di => s.tkEnaDsp numProc NUM_TSKID prid di
  | retInt prid => some (if s.chkDsp prid then s.intoDsp prid else s)
  | forceDispatch prid => some (s.intoDsp prid)
  | restore prid => some (s.chkRestore numProc prid)

/-- When the operation can happen: the calls of a task come from a processor that is in a task, and
not in one that was terminated; no task waits with interrupts disabled or in a task-independent part
(`CHECK_DISPATCH`). -/
def Fits (s : Smp) : SmpOp → Prop
  | criticalSection prid calls di =>
    prid < numProc ∧ SchedCall.FitAll numProc NUM_TSKID prid calls s ∧
      (di = true → .makeWait ∉ calls)
  | extTsk prid calls => prid < numProc ∧ s.ctxtsk prid ≠ none ∧ ¬s.forced prid ∧
    ∀ s' ∈ s.endSelf numProc NUM_TSKID prid false, SchedCall.FitAll numProc NUM_TSKID prid calls s'
  | exdTsk prid calls => prid < numProc ∧ s.ctxtsk prid ≠ none ∧ ¬s.forced prid ∧
    ∀ s' ∈ s.endSelf numProc NUM_TSKID prid true, SchedCall.FitAll numProc NUM_TSKID prid calls s'
  | creTsk tcb _ assprc _ => tcb < NUM_TSKID ∧ assprc < 2 ^ 32
  | delTsk _ => True
  | chgSlt _ slicetime => slicetime < 2 ^ 32
  | disDsp prid | enaDsp prid _ => prid < numProc ∧ s.ctxtsk prid ≠ none ∧ ¬s.forced prid
  | retInt prid => prid < numProc ∧ s.ctxtsk prid ≠ none
  | forceDispatch prid => prid < numProc ∧ s.forced prid
  | restore prid => prid < numProc ∧ s.ctxtsk prid = none

end SmpOp

/-- The start: no task, and every processor in the dispatcher. -/
def smpStart (c : Core) (sl : Slices) : Smp where
  core := readyQueueInitialize c
  schedtsk _ := none
  ctxtsk _ := none
  dispatch_disabled _ := DDS_ENABLE
  toSlices := sl
  state _ := .nonexist
  ipriority _ := 0
  stkfree _ := false

end SmpTKernel
