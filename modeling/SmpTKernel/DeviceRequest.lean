import SmpTKernel.DeviceOpen
import SmpTKernel.Lib.Census

/-!
# Device requests

`deviceio.c`: starting requests, waiting for one or for any of them, and closing the descriptor. The
driver is called when the device lock is released. A step is what a call does between two releases
of the lock, with the return of the driver before it, or one of the steps in which a task that
closes the descriptor waits for the driver calls it has aborted; the steps of all tasks come in any
order.
-/

namespace SmpTKernel

open Census

abbrev TDC_READ : ℤ := 1

/-- Where a task is. Request blocks go by their identifiers, `REQID`. -/
inductive ReqPos
  | outside
  /-- In `execfn`, for a request it has started. -/
  | inExec (reqid : ℕ)
  /-- In `waitfn`, with the wait request list; `reqid` is 0 if it waits for any of them. -/
  | inWait (reqid : ℕ) (devreqs : List ℕ)
  /-- Has reset `resid`, `abort_allrequest` is next. -/
  | closing
  /-- Has aborted the driver calls, reads `abort_cnt` next. -/
  | aborted
  /-- Has found `abort_cnt` positive, `tk_wai_sem` is next. -/
  | toSync
  | inSync
  /-- `tk_wai_sem` has returned, `tk_ena_wai` is next. -/
  | synced
  /-- Goes on, resets `abort_tskid` next. -/
  | ended
  /-- Takes the next of the remaining requests. -/
  | draining
  /-- In `waitfn`, for a remaining request. -/
  | inDrain (reqid : ℕ)
  | closed
  deriving DecidableEq, Repr

inductive ReqEvent
  /-- A block is taken from `FreeReqCB`. -/
  | taken (reqid : ℕ)
  | freed (reqid : ℕ)
  /-- `SyncSignalDM`. -/
  | signalled (t : Tsk)
  /-- The end of `SyncWaitDM`. -/
  | received (t : Tsk)
  deriving DecidableEq, Repr

/-- An open descriptor with its requests, and the tasks of the resource group. -/
structure OpnReqs where
  omode : BitVec 32
  /-- 0 from the begin of the close. -/
  resid : ℕ
  /-- The requests of the descriptor; `opncb` of these blocks names it. -/
  requestq : List ℕ
  /-- Number of individual request waits. -/
  waitone : BitVec 16
  /-- List of multiple request waits. -/
  waireqlst : Option ℕ
  /-- Number of multiple request waits. -/
  nwaireq : ℕ
  /-- Abort completion wait task, or 0. -/
  abort_tskid : Tsk
  abort_cnt : ℤ
  /-- Processing task of a request, or 0. -/
  tskid : ℕ → Tsk
  /-- `req.next`. -/
  next : ℕ → Option ℕ
  /-- `req.abort`. -/
  abort : ℕ → Bool
  /-- Waits for a semaphore are disabled. -/
  mask : Tsk → Bool
  pos : Tsk → ReqPos
  log : List ReqEvent

namespace OpnReqs

variable (s : OpnReqs)

/-- Verify validity of device descriptor: `check_devdesc`. -/
def checkDevdesc (rid : ℕ) (mode : BitVec 32) : ER :=
  if s.resid = 0 then E_ID
  else if s.resid ≠ rid then E_OACV
  else if mode ≠ 0 ∧ s.omode &&& mode = 0 then E_OACV
  else E_OK

/-- Get request management block: `newReqCB`, with the block `reqid` from `FreeReqCB`. -/
def newReqCB (reqid : ℕ) : OpnReqs :=
  { s with
    requestq := s.requestq ++ [reqid]
    log := s.log ++ [.taken reqid] }

/-- Free request management block. -/
def delReqCB (reqid : ℕ) : OpnReqs :=
  { s with
    requestq := s.requestq.erase reqid
    log := s.log ++ [.freed reqid] }

def goTo (t : Tsk) (p : ReqPos) : OpnReqs := { s with pos := Function.update s.pos t p }

/-- `SyncSignalDM`: `tk_dis_wai` disables the waits of task `t` for a semaphore, and ends one. -/
def syncSignal (t : Tsk) : OpnReqs :=
  { s with
    mask := Function.update s.mask t true
    pos := if s.pos t = .inSync then Function.update s.pos t .synced else s.pos
    log := s.log ++ [.signalled t] }

/-- If there is an abort completion wait task, notify abort completion. -/
def notifyAbort : OpnReqs :=
  if s.abort_tskid > 0 then
    let s' := { s with abort_cnt := s.abort_cnt - 1 }
    if s'.abort_cnt = 0 then s'.syncSignal s.abort_tskid else s'
  else s

/-- Request for starting input/output: `request` to `UnlockDM`. `brk` is what `check_break` returns,
`new` what `FreeReqCB` has to give, `tsp` what `tk_get_tsp` returns. -/
def request (t : Tsk) (rid : ℕ) (start cmd : ℤ) (brk : ER) (new : Option ℕ) (tsp : ER) :
    ER × OpnReqs :=
  if brk < E_OK then (brk, s)
  else
    let m := if start ≤ -0x00010000 ∧ start ≥ -0x7fffffff then 0
      else if cmd = TDC_READ then TD_READ else TD_WRITE
    if s.checkDevdesc rid m < E_OK then (s.checkDevdesc rid m, s)
    else
      match new with
      | none => (E_LIMIT, s)
      | some reqid =>
        let s' := { s.newReqCB reqid with
          next := Function.update s.next reqid none
          abort := Function.update s.abort reqid false }
        if tsp < E_OK then (tsp, s'.delReqCB reqid)
        else (E_OK, { s' with tskid := Function.update s.tskid reqid t }.goTo t (.inExec reqid))

/-- The return of `execfn`, and `request` to its end. -/
def execReturns (t : Tsk) (reqid : ℕ) (ercd : ER) : OpnReqs :=
  let s' := { s with tskid := Function.update s.tskid reqid 0 }.notifyAbort
  (if ercd < E_OK then s'.delReqCB reqid else s').goTo t .outside

/-- The list of requests from `devreq` on; a wait request list has at most `n` members. -/
def chain (next : ℕ → Option ℕ) : ℕ → Option ℕ → List ℕ
  | n + 1, some devreq => devreq :: chain next n (next devreq)
  | _, _ => []

/-- Link the members of a list. -/
def link (next : ℕ → Option ℕ) : List ℕ → ℕ → Option ℕ
  | [] => next
  | devreq :: rest => Function.update (link next rest) devreq rest.head?

/-- Request completion wait: `_tk_wai_dev` to `UnlockDM`. -/
def waiDev (t : Tsk) (rid reqid : ℕ) (brk : ER) : ER × OpnReqs :=
  if brk < E_OK then (brk, s)
  else if s.checkDevdesc rid 0 < E_OK then (s.checkDevdesc rid 0, s)
  else if reqid = 0 then
    if s.nwaireq > 0 ∨ s.waitone ≠ 0 then (E_OBJ, s)
    else if s.requestq = [] then (E_NOEXS, s)
    else
      (E_OK, { s with
        tskid := fun r => if r ∈ s.requestq then t else s.tskid r
        next := link s.next s.requestq
        waireqlst := s.requestq.head?
        nwaireq := s.requestq.length }.goTo t (.inWait 0 s.requestq))
  else if reqid ∉ s.requestq then (E_ID, s)
  else if s.nwaireq > 0 ∨ s.tskid reqid > 0 then (E_OBJ, s)
  else
    (E_OK, { s with
      tskid := Function.update s.tskid reqid t
      next := Function.update s.next reqid none
      waitone := s.waitone + 1 }.goTo t (.inWait reqid [reqid]))

/-- The return of `waitfn`, and `_tk_wai_dev` to its end. -/
def waitReturns (t : Tsk) (reqid : ℕ) (devreqs : List ℕ) (reqno : ℤ) : OpnReqs :=
  let ercd := if reqno ≥ devreqs.length then E_SYS else if reqno < E_OK then reqno else E_OK
  let s₁ := if reqid = 0 then { s with nwaireq := 0 } else { s with waitone := s.waitone - 1 }
  let s₂ := s₁.notifyAbort
  let list := chain s.next devreqs.length devreqs.head?
  let s₃ := { s₂ with tskid := fun r => if r ∈ list then 0 else s₂.tskid r }
  (if ercd < E_OK then s₃ else s₃.delReqCB (list.getD reqno.toNat reqid)).goTo t .outside

/-- Device close: `_tk_cls_dev` to `UnlockDM`. -/
def clsDev (t : Tsk) (rid : ℕ) : ER × OpnReqs :=
  if s.checkDevdesc rid 0 < E_OK then (s.checkDevdesc rid 0, s)
  else (E_OK, { s with resid := 0 }.goTo t .closing)

/-- Device management cleanup function, for this descriptor: `devmgr_cleanup`. -/
def devmgrCleanup (t : Tsk) : OpnReqs := { s with resid := 0 }.goTo t .closing

/-- Abort all requests: `abort_allrequest` to the first `UnlockDM`. -/
def abortAllrequest (t : Tsk) : OpnReqs :=
  let s' := { s with abort_tskid := t }
  (if s.nwaireq > 0 then { s' with abort_cnt := 1 }
  else
    { s' with
      abort := fun r => if r ∈ s.requestq ∧ s.tskid r ≠ 0 then true else s.abort r
      abort_cnt := s.requestq.countP fun r => s.tskid r ≠ 0 }).goTo t .aborted

/-- Is there an abort request to wait for? -/
def checkAbort (t : Tsk) : OpnReqs := if s.abort_cnt > 0 then s.goTo t .toSync else s.goTo t .ended

/-- `SyncWaitDM`: the call of `tk_wai_sem`. Nobody signals the semaphore. -/
def waiSync (t : Tsk) : OpnReqs := if s.mask t then s.goTo t .synced else s.goTo t .inSync

/-- `SyncWaitDM`: the call of `tk_ena_wai`. -/
def enaWai (t : Tsk) : OpnReqs :=
  { s with
    mask := Function.update s.mask t false
    log := s.log ++ [ReqEvent.received t] }.goTo t .ended

/-- `abort_tskid` is reset. -/
def resetAbort (t : Tsk) : OpnReqs := { s with abort_tskid := 0 }.goTo t .draining

/-- Abort remaining requests and wait for completion: the next one, if there is one. -/
def drain (t : Tsk) : OpnReqs :=
  match s.requestq with
  | [] => s.goTo t .closed
  | reqid :: _ => { s with abort := Function.update s.abort reqid true }.goTo t (.inDrain reqid)

/-- The return of `waitfn` for a remaining request. Unregister completed request. -/
def drainReturns (t : Tsk) (reqid : ℕ) : OpnReqs := (s.delReqCB reqid).goTo t .draining

end OpnReqs

/-! ## Runs -/

inductive ReqOp
  | request (t : Tsk) (rid : ℕ) (start cmd : ℤ) (brk : ER) (new : Option ℕ) (tsp : ER)
  | execReturns (t : Tsk) (reqid : ℕ) (ercd : ER)
  | waiDev (t : Tsk) (rid reqid : ℕ) (brk : ER)
  | waitReturns (t : Tsk) (reqid : ℕ) (devreqs : List ℕ) (reqno : ℤ)
  | clsDev (t : Tsk) (rid : ℕ)
  | devmgrCleanup (t : Tsk)
  | abortAllrequest (t : Tsk)
  | checkAbort (t : Tsk)
  | waiSync (t : Tsk)
  | enaWai (t : Tsk)
  | resetAbort (t : Tsk)
  | drain (t : Tsk)
  | drainReturns (t : Tsk) (reqid : ℕ)
  deriving DecidableEq, Repr

def ReqOp.exec (s : OpnReqs) : ReqOp → OpnReqs
  | request t rid start cmd brk new tsp => (s.request t rid start cmd brk new tsp).2
  | execReturns t reqid ercd => s.execReturns t reqid ercd
  | waiDev t rid reqid brk => (s.waiDev t rid reqid brk).2
  | waitReturns t reqid devreqs reqno => s.waitReturns t reqid devreqs reqno
  | clsDev t rid => (s.clsDev t rid).2
  | devmgrCleanup t => s.devmgrCleanup t
  | abortAllrequest t => s.abortAllrequest t
  | checkAbort t => s.checkAbort t
  | waiSync t => s.waiSync t
  | enaWai t => s.enaWai t
  | resetAbort t => s.resetAbort t
  | drain t => s.drain t
  | drainReturns t reqid => s.drainReturns t reqid

/-- Tasks follow their programs; identifiers of tasks and requests are positive, and a new block is
free. -/
def ReqOp.Legal (s : OpnReqs) : ReqOp → Prop
  | request t _ _ _ _ new _ => s.pos t = .outside ∧ 0 < t ∧ ∀ r ∈ new, 0 < r ∧ r ∉ s.requestq
  | execReturns t reqid _ => s.pos t = .inExec reqid
  | waiDev t .. => s.pos t = .outside ∧ 0 < t
  | waitReturns t reqid devreqs _ => s.pos t = .inWait reqid devreqs
  | clsDev t _ => s.pos t = .outside ∧ 0 < t
  | devmgrCleanup t => s.pos t = .outside ∧ 0 < t
  | abortAllrequest t => s.pos t = .closing
  | checkAbort t => s.pos t = .aborted
  | waiSync t => s.pos t = .toSync
  | enaWai t => s.pos t = .synced
  | resetAbort t => s.pos t = .ended
  | drain t => s.pos t = .draining
  | drainReturns t reqid => s.pos t = .inDrain reqid

/-- A descriptor that has just been opened. -/
structure OpnReqs.Opened (s : OpnReqs) : Prop where
  resid : s.resid ≠ 0
  requestq : s.requestq = []
  waitone : s.waitone = 0
  nwaireq : s.nwaireq = 0
  abort_tskid : s.abort_tskid = 0
  mask : ∀ t, s.mask t = false
  pos : ∀ t, s.pos t = .outside
  log : s.log = []

/-- The states a descriptor reaches from `s₀` by steps that all meet the condition `P`. -/
inductive ReqRun (P : OpnReqs → ReqOp → Prop) (s₀ : OpnReqs) : OpnReqs → Prop
  | start (h : s₀.Opened) : ReqRun P s₀ s₀
  | step {s : OpnReqs} (op : ReqOp) (run : ReqRun P s₀ s) (legal : op.Legal s) (h : P s op) :
      ReqRun P s₀ (op.exec s)

/-! ## What the requests should do -/

/-- A task in the driver holds the request, or the list with it. -/
def ReqPos.Uses (reqid : ℕ) : ReqPos → Prop
  | inExec r => r = reqid
  | inWait _ devreqs => reqid ∈ devreqs
  | inDrain r => r = reqid
  | _ => False

/-- In a driver call that the close has to wait for. -/
def ReqPos.InCall : ReqPos → Prop
  | inExec _ => True
  | inWait .. => True
  | _ => False

/-- In the close. -/
def ReqPos.Closes : ReqPos → Prop
  | outside => False
  | inExec _ => False
  | inWait .. => False
  | _ => True

/-- The task has gone on after the abort. -/
def ReqPos.Continued : ReqPos → Prop
  | ended => True
  | draining => True
  | inDrain _ => True
  | closed => True
  | _ => False

/-- Every request block is freed once, and not while a task uses it; the closing task goes on when
all driver calls that it has aborted have returned, and receives the signal for that once. -/
structure ReqRight (s : OpnReqs) : Prop where
  freedOnce : ∀ r, s.log.count (.taken r) = s.log.count (.freed r) + if r ∈ s.requestq then 1 else 0
  inUse : ∀ t r, (s.pos t).Uses r → r ∈ s.requestq
  emptied : ∀ t, s.pos t = .closed → s.requestq = []
  counted : s.abort_tskid ≠ 0 → ∃ n : ℕ, s.abort_cnt = n ∧ Count s.pos ReqPos.InCall n
  notEarly : ∀ t, (s.pos t).Continued → ∀ t', ¬(s.pos t').InCall
  notMissed : ∀ t, s.pos t = .inSync → s.abort_tskid = t ∧ 0 < s.abort_cnt
  receivedOnce : ∀ t,
    s.log.count (.signalled t) = s.log.count (.received t) + if s.mask t then 1 else 0
  consumed : ∀ t, (s.pos t).Continued → s.mask t = false

/-- A wait for any request does not begin while a request is processed; an abort does not find both
such a wait and a started request; a descriptor is not closed twice; and the last of the aborted
calls does not return between the abort and the look at `abort_cnt`. -/
def ReqOp.Keeps (s : OpnReqs) : ReqOp → Prop
  | waiDev _ rid reqid brk => E_OK ≤ brk → E_OK ≤ s.checkDevdesc rid 0 → reqid = 0 →
    s.nwaireq = 0 → s.waitone = 0 →
    ∀ r ∈ s.requestq, s.tskid r = 0
  | abortAllrequest _ => 0 < s.nwaireq → ∀ t r, s.pos t ≠ .inExec r
  | devmgrCleanup _ => ∀ t, ¬(s.pos t).Closes
  | execReturns .. => s.abort_tskid ≠ 0 → s.abort_cnt = 1 → s.pos s.abort_tskid ≠ .aborted
  | waitReturns .. => s.abort_tskid ≠ 0 → s.abort_cnt = 1 → s.pos s.abort_tskid ≠ .aborted
  | _ => True

end SmpTKernel
