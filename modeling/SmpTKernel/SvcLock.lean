import SmpTKernel.Basic

/-!
# The locks of extended SVCs

`LockSVC`, `UnlockSVC` and `AllUnlockSVC` of `klock.c`, and the calls of `task_manage.c` that end a
task. Every task has a lock, `tcb->svclock`; the locks a task holds are linked through `locklist`
from `tcb->svclocked` on. The ready queue is left out: a task that waits for a lock is in the queue
of the lock and not in the ready queue.
-/

namespace SmpTKernel

/-- A lock, by the task it belongs to. -/
abbrev Lock := ℕ

/-- The locks, and what a task control block has to do with them. -/
structure SvcState where
  /-- The task each processor executes. -/
  ctxtsk : ℕ → Option Tsk
  state : Tsk → TaskState
  /-- `TRUE` at wait kernel lock. -/
  klockwait : Tsk → Bool
  /-- List of locks. -/
  svclocked : Tsk → Option Lock
  /-- Wait task queue; `wtskq.next` is `NULL` while the lock is free. -/
  wtskq : Lock → Option (List Tsk)
  /-- List during lock. -/
  locklist : Lock → Option Lock

namespace SvcState

variable (s : SvcState)

/-- The part of `task_initialize` about locks. -/
def taskInitialize (locklist : Lock → Option Lock) : SvcState where
  ctxtsk _ := none
  state _ := .nonexist
  klockwait _ := false
  svclocked _ := none
  wtskq _ := none
  locklist := locklist

/-- The part of `ready_queue_delete` about tasks in the wait queue of a lock. -/
def leaveLockQueue (t : Tsk) : SvcState :=
  if s.klockwait t then
    { s with
      wtskq := fun l => (s.wtskq l).map fun queue => queue.erase t
      klockwait := Function.update s.klockwait t false }
  else s

/-! ## `klock.c` -/

/-- Lock. -/
def takeLock (t : Tsk) (loc : Lock) : SvcState :=
  { s with
    wtskq := Function.update s.wtskq loc (some [])
    locklist := Function.update s.locklist loc (s.svclocked t)
    svclocked := Function.update s.svclocked t (some loc) }

/-- Ready for lock. -/
def waitLock (t : Tsk) (loc : Lock) : SvcState :=
  let s := s.leaveLockQueue t
  { s with
    klockwait := Function.update s.klockwait t true
    wtskq := Function.update s.wtskq loc ((s.wtskq loc).map fun queue => queue ++ [t]) }

/-- One turn of the loop in `LockSVC`, and whether the caller has the lock then. -/
def lockSvc (prid : ℕ) (loc : Lock) : Option (Bool × SvcState) :=
  (s.ctxtsk prid).map fun t =>
    if s.svclocked t = some loc then (true, s)
    else if s.wtskq loc = none then (true, s.takeLock t loc)
    else (false, s.waitLock t loc)

/-- The end of `UnlockSVC`: the lock, which its owner has taken off its list, is freed, or goes to
the task that waits first. A free lock has no queue to look at. -/
def passLock (loc : Lock) : Option SvcState :=
  (s.wtskq loc).map fun
    | [] => { s with wtskq := Function.update s.wtskq loc none }
    | tcb :: queue =>
      { s with
        wtskq := Function.update s.wtskq loc (some queue)
        klockwait := Function.update s.klockwait tcb false
        locklist := Function.update s.locklist loc (s.svclocked tcb)
        svclocked := Function.update s.svclocked tcb (some loc) }

/-- Take `loc`, the first of its locks, off the list of `t`, and pass it on. -/
def releaseLock (t : Tsk) (loc : Lock) : Option SvcState :=
  passLock { s with svclocked := Function.update s.svclocked t (s.locklist loc) } loc

def unlockSvc (prid : ℕ) : Option SvcState :=
  (s.ctxtsk prid).bind fun t => (s.svclocked t).bind fun loc => s.releaseLock t loc

/-- `AllUnlockSVC`, on the processor `prid`. -/
def allUnlockSvc (prid : ℕ) : ℕ → SvcState → Option SvcState
  | 0, _ => none
  | fuel + 1, s =>
    (s.ctxtsk prid).bind fun t =>
      match s.svclocked t with
      | none => some s
      | some loc => (s.releaseLock t loc).bind (allUnlockSvc prid fuel)

/-! ## `task_manage.c` -/

/-- `is_ctxtsk`. -/
def isCtxtsk (numProc : ℕ) (t : Tsk) : Bool := (List.range numProc).any fun i => s.ctxtsk i = some t

/-- The part of `make_dormant` about locks. -/
def makeDormant (t : Tsk) : SvcState :=
  { s with
    state := Function.update s.state t .dormant
    klockwait := Function.update s.klockwait t false }

/-- `_ter_tsk`, called on the processor `prid`. -/
def terTsk (fuel prid : ℕ) (t : Tsk) : Option SvcState :=
  (if s.svclocked t ≠ none then allUnlockSvc prid fuel s else some s).map fun s =>
    if s.state t = .ready then s.leaveLockQueue t else s

/-- The processor throws its context away. -/
def forceDispatch (prid : ℕ) : SvcState := { s with ctxtsk := Function.update s.ctxtsk prid none }

def tkExtTsk (fuel prid : ℕ) : Option SvcState :=
  (s.ctxtsk prid).bind fun t =>
    (s.terTsk fuel prid t).map fun s => (s.makeDormant t).forceDispatch prid

def tkExdTsk (fuel prid : ℕ) : Option SvcState :=
  (s.ctxtsk prid).bind fun t =>
    (s.terTsk fuel prid t).map fun s =>
      forceDispatch { s with state := Function.update s.state t .nonexist } prid

/-- `indp` says that a handler calls, `prot` is the result of the check of the domain and of the
protection, and `klocked` whether the task holds an object lock. -/
def tkTerTsk (fuel prid : ℕ) (indp : Bool) (t : Tsk) (prot : ER) (klocked : Bool) :
    Option (ER × SvcState) :=
  if !indp && s.ctxtsk prid = some t then some (E_OBJ, s)
  else if s.state t = .nonexist then some (E_NOEXS, s)
  else if prot ≠ E_OK then some (prot, s)
  else if s.state t = .dormant then some (E_OBJ, s)
  else if klocked then some (E_OBJ, s)
  else (s.terTsk fuel prid t).map fun s => (E_OK, s.makeDormant t)

/-- Creation, in a control block that is free. -/
def creTsk (t : Tsk) : SvcState := s.makeDormant t

/-- The start of a dormant task that no processor executes any more. -/
def staTsk (numProc : ℕ) (t : Tsk) : ER × SvcState :=
  if s.state t = .nonexist then (E_NOEXS, s)
  else if s.state t ≠ .dormant ∨ s.isCtxtsk numProc t then (E_OBJ, s)
  else (E_OK, { s with state := Function.update s.state t .ready })

end SvcState

end SmpTKernel
