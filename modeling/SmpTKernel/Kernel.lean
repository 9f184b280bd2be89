import SmpTKernel.ObjectId
import SmpTKernel.WaitQueue
import Mathlib.Logic.Function.Basic

/-!
# All tasks and all wait queues

`wait.c`, `task.c` and the wait specifications: a change of priority or the end of a wait of one
task runs the hook of its wait specification, which reorders a queue, serves other tasks, or changes
the priority of the holder of a mutex, and so on along the holders. The state has the control blocks
of all tasks and, of every object, what the waits depend on: attributes, queues, and who holds a
mutex. What an object contains (counts, bits, messages, memory) decides only whether a call finds
what it wants and how many waiting tasks a hook can serve; both are parameters here. `stamp`,
`rdvatr` and `log` are not in the source.
-/

namespace SmpTKernel

/-- The queues a task can wait in. -/
inductive WaitKind
  | sem | flg | mbx | mtx
  /-- `send_queue` and `recv_queue` of a message buffer. -/
  | smbf | rmbf
  /-- `call_queue` and `accept_queue` of a port. -/
  | cal | acp
  | mpf | mpl
  deriving DecidableEq, Repr

inductive ObjKind
  | sem | flg | mbx | mtx | mbf | por | mpf | mpl
  deriving DecidableEq, Repr

/-- The object the queue belongs to. -/
def WaitKind.obj : WaitKind → ObjKind
  | sem => .sem
  | flg => .flg
  | mbx => .mbx
  | mtx => .mtx
  | smbf | rmbf => .mbf
  | cal | acp => .por
  | mpf => .mpf
  | mpl => .mpl

def WaitKind.tskwait : WaitKind → ℕ
  | sem => TTW_SEM
  | flg => TTW_FLG
  | mbx => TTW_MBX
  | mtx => TTW_MTX
  | smbf => TTW_SMBF
  | rmbf => TTW_RMBF
  | cal => TTW_CAL
  | acp => TTW_ACP
  | mpf => TTW_MPF
  | mpl => TTW_MPL

/-- The hooks of this wait serve the tasks of the queue: `sem_rel_wai`, `mbf_rel_wai`,
`mpl_rel_wai`. -/
def WaitKind.serves : WaitKind → Bool
  | sem | smbf | mpl => true
  | _ => false

/-- The object with these attributes keeps the queue in the order of priority. -/
def WaitKind.tpri (objatr : ℕ) : WaitKind → Bool
  | mtx => objatr &&& TA_CEILING ≠ 0
  | rmbf | acp => false
  | _ => objatr &&& TA_TPRI ≠ 0

/-- `WSPEC`, by the constants of the source. -/
inductive WaitSpec
  | slp | dly | rdv
  /-- The specification `tk_wai_tev` builds. -/
  | tev (waiptn : ℕ)
  /-- `wspec_k_tpri` or `wspec_k_tfifo`; `wspec_rmbf` and `wspec_acp` are of the second kind. -/
  | que (k : WaitKind) (tpri : Bool)
  | mtxInherit
  deriving DecidableEq, Repr

def WaitSpec.tskwait : WaitSpec → ℕ
  | slp => TTW_SLP
  | dly => TTW_DLY
  | rdv => TTW_RDV
  | tev waiptn => waiptn <<< 16
  | que k _ => k.tskwait
  | mtxInherit => TTW_MTX

@[simp] theorem WaitSpec.tskwait_tev (n : ℕ) : (tev n).tskwait = n <<< 16 := by
  unfold tskwait
  rfl

@[simp] theorem WaitSpec.tskwait_que (k : WaitKind) (tpri : Bool) :
    (que k tpri).tskwait = k.tskwait := rfl

/-- The kind of queue a task with this specification is in. -/
def WaitSpec.kind : WaitSpec → Option WaitKind
  | que k _ => some k
  | mtxInherit => some .mtx
  | _ => none

/-- `chg_pri_hook` is not `NULL`. -/
def WaitSpec.ordered : WaitSpec → Bool
  | que _ tpri => tpri
  | mtxInherit => true
  | _ => false

/-- The specification of a wait in the queue of an object with these attributes. -/
def WaitKind.wspec (objatr : ℕ) (k : WaitKind) : WaitSpec :=
  if k = .mtx ∧ objatr &&& TA_CEILING = TA_INHERIT then .mtxInherit else .que k (k.tpri objatr)

/-- `(state & TS_WAIT) != 0`. -/
def TaskState.isWait : TaskState → Bool
  | wait | waitsus => true
  | _ => false

/-- The task control block. -/
structure TaskCB where
  state : TaskState
  priority : ℕ
  bpriority : ℕ
  ipriority : ℕ
  wspec : WaitSpec
  wid : ID
  nodiswai : Bool
  waitmask : ℕ
  wupcnt : ℤ
  suscnt : ℤ
  tskevt : ℕ
  mtxlist : List ID
  /-- Linked in the ready queue. -/
  ready : Bool
  /-- `wtmeb` is linked in the timer queue. -/
  timed : Bool

/-- What happens to the counters of a task. -/
inductive KernEvent
  | started (t : Tsk)
  /-- `tk_sus_tsk`, `tk_rsm_tsk` and `tk_frsm_tsk`, accepted. -/
  | suspended (t : Tsk)
  | resumed (t : Tsk)
  | forced (t : Tsk)
  /-- `tk_wup_tsk`, accepted. -/
  | wakened (t : Tsk)
  /-- A sleep satisfied at once, and one ended by a wakeup. -/
  | slept (t : Tsk)
  | awoken (t : Tsk)
  /-- `tk_can_wup` returned `n`. -/
  | cancelled (t : Tsk) (n : ℤ)
  deriving DecidableEq, Repr

abbrev QueueId := WaitKind × ID

structure Kern where
  tcb : Tsk → TaskCB
  /-- The attributes of the registered objects. -/
  objatr : ObjKind × ID → Option ℕ
  queue : QueueId → List Tsk
  ceilpri : ID → ℕ
  mtxtsk : ID → Option Tsk
  /-- When the task was last put in a queue or given a priority, by a clock. -/
  stamp : Tsk → ℕ
  clock : ℕ
  /-- The attributes of the port the task called, when its rendezvous was made. -/
  rdvatr : Tsk → ℕ
  /-- Newest first. -/
  log : List KernEvent

/-- How far the hooks of one call go: how many waiting tasks they serve, and how many changes of
priority they make one after the other. -/
structure Hook where
  served : ℕ
  depth : ℕ

namespace Kern

variable (s : Kern) (t : Tsk)

def upd (f : TaskCB → TaskCB) : Kern := { s with tcb := Function.update s.tcb t (f (s.tcb t)) }

def note (e : KernEvent) : Kern := { s with log := e :: s.log }

/-- The priorities of the tasks. -/
def pri (u : Tsk) : ℕ := (s.tcb u).priority

def touch : Kern := { s with stamp := Function.update s.stamp t s.clock, clock := s.clock + 1 }

def setQueue (q : QueueId) (l : List Tsk) : Kern := { s with queue := Function.update s.queue q l }

/-- `QueRemove(&tcb->tskque)`. -/
def queRemove : Kern := { s with queue := fun q => (s.queue q).erase t }

/-! ## `task.c` -/

def makeReady : Kern := s.upd t fun c => { c with state := .ready, ready := true }

def makeNonReady : Kern := s.upd t fun c => { c with ready := false }

def makeDormant : Kern :=
  s.upd t fun c =>
    { c with
      state := .dormant
      priority := c.ipriority
      bpriority := c.ipriority
      wupcnt := 0
      suscnt := 0
      waitmask := 0
      nodiswai := false
      mtxlist := []
      tskevt := 0 }

/-! ## `wait.c` -/

def makeNonWait : Kern :=
  if (s.tcb t).state = .wait then s.makeReady t else s.upd t fun c => { c with state := .suspend }

def waitCancel : Kern := (s.upd t fun c => { c with timed := false }).queRemove t

def waitRelease : Kern := (s.waitCancel t).makeNonWait t

/-- `make_wait` and `make_wait_reltim`, for the calling task. -/
def enterWait (timed : Bool) (atr : ℕ) : Kern :=
  s.upd t fun c =>
    { c with
      state := if c.state = .ready then .wait else if c.state = .suspend then .waitsus else c.state
      ready := if c.state = .ready then false else c.ready
      nodiswai := atr &&& TA_NODISWAI ≠ 0
      timed := timed }

def makeWait (tmout : ℤ) (atr : ℕ) : Kern := s.enterWait t (tmout ≠ TMO_FEVR) atr

/-- The common beginning of all waits. -/
def setWait (w : WaitSpec) (wid : ID) : Kern := s.upd t fun c => { c with wspec := w, wid := wid }

/-- `queue_insert_tpri` or `QueInsert` into the queue. -/
def enqueue (q : QueueId) (tpri : Bool) : Kern :=
  (s.touch t).setQueue q (if tpri then queueInsertTpri s.pri t (s.queue q) else s.queue q ++ [t])

/-- `gcb_make_wait` after the wait specification is set; `tk_loc_mtx`, `tk_rcv_mbf` and `tk_acp_por`
do the same without calling it. -/
def gcbMakeWait (k : WaitKind) (id : ID) (atr : ℕ) (tmout : ℤ) : Kern :=
  (((s.setWait t (k.wspec atr) id).makeWait t tmout atr).enqueue t (k, id) (k.tpri atr))

/-- `gcb_make_wait_with_diswai`; `none` when the task waits. -/
def gcbMakeWaitWithDiswai (k : WaitKind) (id : ID) (atr : ℕ) (tmout : ℤ) : Kern × Option ER :=
  if isDiswai atr (s.tcb t).waitmask k.tskwait then (s, some E_DISWAI)
  else if tmout = TMO_POL then (s, some E_TMOUT)
  else (s.gcbMakeWait t k id atr tmout, none)

/-- The waits outside the queues. -/
def waitAlone (w : WaitSpec) (timed : Bool) (atr : ℕ) : Kern :=
  (s.setWait t w 0).enterWait t timed atr

/-- `gcb_change_priority`. -/
def requeue (q : QueueId) : Kern := s.setQueue q (gcbChangePriority s.pri t (s.queue q))

/-- Release the first tasks of the queue: `mbf_wakeup`, `mpl_wakeup`, the loop of `sem_chg_pri`. -/
def wakeup (q : QueueId) : ℕ → Kern → Kern
  | 0, s => s
  | n + 1, s =>
    match s.queue q with
    | [] => s
    | t :: _ => wakeup q n (s.waitRelease t)

/-- `wait_delete`. -/
def waitDelete (q : QueueId) : Kern := wakeup q (s.queue q).length s

/-! ## Priorities and mutexes

A routine that ends with a call of `change_task_priority` returns the task and the priority of this
call. -/

/-- What a held mutex asks for; `pri` is from the mutex before it. -/
def mtxPri (m : ID) (pri : ℕ) : ℕ :=
  let mtxatr := (s.objatr (.mtx, m)).getD 0
  if mtxatr &&& TA_CEILING = TA_CEILING then s.ceilpri m
  else if mtxatr &&& TA_CEILING = TA_INHERIT then
    match s.queue (.mtx, m) with
    | [] => pri
    | q :: _ => (s.tcb q).priority
  else pri

/-- The loop of `release_mutex` over the held mutexes. -/
def heldPri : List ID → ℕ → ℕ → ℕ
  | [], newpri, _ => newpri
  | m :: ms, newpri, pri =>
    let pri := s.mtxPri m pri
    heldPri ms (if newpri > pri then pri else newpri) pri

/-- `release_mutex`; `reset_priority` when there is no mutex to release. -/
def releaseMutex (relmtx : Option ID) : Kern × Option (Tsk × ℕ) :=
  let s := s.upd t fun c => { c with mtxlist := c.mtxlist.filter fun m => some m ≠ relmtx }
  let c := s.tcb t
  let newpri := s.heldPri c.mtxlist c.bpriority c.bpriority
  (s, if newpri ≠ c.priority then some (t, newpri) else none)

/-- The loop of `chg_pri_mutex` over the held mutexes. -/
def chgPriHeld : List ID → ℕ → ℕ → ℕ → ℕ × ℕ
  | [], hi, low, _ => (hi, low)
  | m :: ms, hi, low, pri =>
    let pri := s.mtxPri m pri
    let low :=
      if ((s.objatr (.mtx, m)).getD 0) &&& TA_CEILING = TA_CEILING ∧ pri > low then pri else low
    chgPriHeld ms (if pri < hi then pri else hi) low pri

/-- `chg_pri_mutex`; `none` for `E_ILUSE`. -/
def chgPriMutex (priority : ℕ) : Option ℕ :=
  let c := s.tcb t
  let low :=
    if c.state.isWait ∧ c.wspec.tskwait &&& TTW_MTX ≠ 0 ∧
        ((s.objatr (.mtx, c.wid)).getD 0) &&& TA_CEILING = TA_CEILING then s.ceilpri c.wid
    else 0
  let (hi, low) := s.chgPriHeld c.mtxlist priority low priority
  if priority < low then none else some hi

def mtxChgPri (oldpri : ℕ) : Kern × Option (Tsk × ℕ) :=
  let m := (s.tcb t).wid
  let s := s.requeue t (.mtx, m)
  if ((s.objatr (.mtx, m)).getD 0) &&& TA_CEILING = TA_INHERIT then
    match s.mtxtsk m with
    | none => (s, none)
    | some mtxtsk =>
      if (s.tcb mtxtsk).priority > (s.tcb t).priority then (s, some (mtxtsk, (s.tcb t).priority))
      else if (s.tcb mtxtsk).priority = oldpri then s.releaseMutex mtxtsk none
      else (s, none)
  else (s, none)

def mtxRelWai : Kern × Option (Tsk × ℕ) :=
  match s.mtxtsk (s.tcb t).wid with
  | none => (s, none)
  | some mtxtsk =>
    if (s.tcb mtxtsk).priority = (s.tcb t).priority then s.releaseMutex mtxtsk none else (s, none)

/-- `chg_pri_hook` of the wait specification. -/
def chgPriHook (served oldpri : ℕ) : Kern × Option (Tsk × ℕ) :=
  match (s.tcb t).wspec with
  | .que .mtx true | .mtxInherit => s.mtxChgPri t oldpri
  | .que k true =>
    let q := (k, (s.tcb t).wid)
    (if k.serves then wakeup q served (s.requeue t q) else s.requeue t q, none)
  | _ => (s, none)

/-- `change_task_priority`, up to the call it may end with. -/
def changePriority (served priority : ℕ) : Kern × Option (Tsk × ℕ) :=
  let oldpri := (s.tcb t).priority
  let s := (s.upd t fun c => { c with priority := priority }).touch t
  if (s.tcb t).state.isWait then s.chgPriHook t served oldpri else (s, none)

/-- The calls of `change_task_priority` that follow each other. -/
def chain (served : ℕ) : ℕ → Kern × Option (Tsk × ℕ) → Kern
  | 0, r => r.1
  | depth + 1, r =>
    match r.2 with
    | none => r.1
    | some (t, priority) => chain served depth (r.1.changePriority t served priority)

/-- The tasks these calls are for. -/
def chainTasks (served : ℕ) : ℕ → Kern × Option (Tsk × ℕ) → List Tsk
  | 0, _ => []
  | depth + 1, r =>
    match r.2 with
    | none => []
    | some (t, priority) => t :: chainTasks served depth (r.1.changePriority t served priority)

def changeTaskPriority (h : Hook) (priority : ℕ) : Kern :=
  chain h.served h.depth (s, some (t, priority))

/-- `rel_wai_hook` of the wait specification. -/
def relWaiHook (h : Hook) : Kern :=
  match (s.tcb t).wspec with
  | .que k _ => if k.serves then wakeup (k, (s.tcb t).wid) h.served s else s
  | .mtxInherit => chain h.served h.depth (s.mtxRelWai t)
  | _ => s

/-- `wait_release_ng` and `wait_release_tmout`. -/
def waitReleaseNg (h : Hook) : Kern := (s.waitRelease t).relWaiHook t h

/-- Change the task that gets the mutex. -/
def holdMutex (m : ID) : Kern :=
  { s with mtxtsk := Function.update s.mtxtsk m (some t) }.upd t fun c =>
    { c with mtxlist := m :: c.mtxlist }

/-- Give the mutex to the first task that waits for it: the end of `tk_unl_mtx`, and the body of the
loop of `signal_all_mutex`. -/
def passMutex (h : Hook) (m : ID) : Kern :=
  match s.queue (.mtx, m) with
  | [] => { s with mtxtsk := Function.update s.mtxtsk m none }
  | next :: _ =>
    let s := (s.waitRelease next).holdMutex next m
    if ((s.objatr (.mtx, m)).getD 0) &&& TA_CEILING = TA_CEILING ∧
        (s.tcb next).priority > s.ceilpri m then
      s.changeTaskPriority next h (s.ceilpri m)
    else s

def signalAllMutex (h : Hook) : Kern := (s.tcb t).mtxlist.foldl (fun s m => s.passMutex h m) s

end Kern

end SmpTKernel
