import SmpTKernel.Kernel

/-!
# The system calls that start, end or look at waits

Each call returns the state and its value, `none` while the calling task waits or when there is
none. `chk` is the error of the first check that fails, if that check looks at no modelled field
(parameters, context, domain, protection, contents of the object), and `E_OK` otherwise. IDs that a
call generates are parameters.
-/

namespace SmpTKernel

/-- The queues of an object. -/
def ObjKind.queues : ObjKind → List WaitKind
  | sem => [.sem]
  | flg => [.flg]
  | mbx => [.mbx]
  | mtx => [.mtx]
  | mbf => [.rmbf, .smbf]
  | por => [.cal, .acp]
  | mpf => [.mpf]
  | mpl => [.mpl]

namespace Kern

variable (s : Kern) (t : Tsk)

def checked (chk : ER) (call : Kern × Option ER) : Kern × Option ER :=
  if chk ≠ E_OK then (s, some chk) else call

/-- The calls on a task begin with these checks; `dormant` is the error for a dormant task, if there
is one. -/
def onTask (chk : ER) (dormant : ER) (call : Kern × Option ER) : Kern × Option ER :=
  s.checked chk <|
    if (s.tcb t).state = .nonexist then (s, some E_NOEXS)
    else if (s.tcb t).state = .dormant ∧ dormant ≠ E_OK then (s, some dormant)
    else call

/-- The calls on an object begin with these checks. -/
def onObj (k : ObjKind) (id : ID) (chk : ER) (call : ℕ → Kern × Option ER) : Kern × Option ER :=
  s.checked chk <|
    match s.objatr (k, id) with
    | none => (s, some E_NOEXS)
    | some atr => call atr

/-! ## `task_manage.c` -/

def creTsk (ipriority : ℕ) (chk : ER) : Kern × Option ER :=
  s.checked chk <|
    if (s.tcb t).state ≠ .nonexist then (s, some E_LIMIT)
    else ((s.upd t fun c => { c with ipriority := ipriority }).makeDormant t, some E_OK)

def delTsk (chk : ER) : Kern × Option ER :=
  s.onTask t chk E_OK <|
    if (s.tcb t).state ≠ .dormant then (s, some E_OBJ)
    else (s.upd t fun c => { c with state := .nonexist }, some E_OK)

def staTsk (chk : ER) : Kern × Option ER :=
  s.onTask t chk E_OK <|
    if (s.tcb t).state ≠ .dormant then (s, some E_OBJ)
    else ((s.makeReady t).note (.started t), some E_OK)

/-- The part of `_ter_tsk` that depends on the state. -/
def terLeave (h : Hook) : Kern :=
  if (s.tcb t).state = .ready then s.makeNonReady t
  else if (s.tcb t).state.isWait then (s.waitCancel t).relWaiHook t h
  else s

/-- `_ter_tsk`. -/
def terTask (h : Hook) : Kern := (s.terLeave t h).signalAllMutex t h

def extTsk (h : Hook) : Kern × Option ER := ((s.terTask t h).makeDormant t, none)

def exdTsk (h : Hook) : Kern × Option ER :=
  ((s.terTask t h).upd t fun c => { c with state := .nonexist }, none)

def terTsk (h : Hook) (chk : ER) : Kern × Option ER :=
  s.onTask t chk E_OBJ ((s.terTask t h).makeDormant t, some E_OK)

/-- `tk_chg_pri`; no priority stands for `TPRI_INI`. -/
def chgPri (h : Hook) (tskpri : Option ℕ) (chk : ER) : Kern × Option ER :=
  s.onTask t chk E_OK <|
    let priority := tskpri.getD (s.tcb t).ipriority
    match s.chgPriMutex t priority with
    | none => (s, some E_ILUSE)
    | some limited =>
      ((s.upd t fun c => { c with bpriority := priority }).changeTaskPriority t h limited,
        some E_OK)

def relWai (h : Hook) (chk : ER) : Kern × Option ER :=
  s.onTask t chk E_OK <|
    if (s.tcb t).state.isWait then (s.waitReleaseNg t h, some E_OK) else (s, some E_OBJ)

def disWai (h : Hook) (waitmask : ℕ) (chk : ER) : Kern × Option ER :=
  s.onTask t chk E_OK <|
    let s := s.upd t fun c => { c with waitmask := waitmask }
    if (s.tcb t).state.isWait then
      let tskwait := (s.tcb t).wspec.tskwait
      if tskwait &&& waitmask ≠ 0 ∧ (s.tcb t).nodiswai = false then (s.waitReleaseNg t h, some 0)
      else (s, some tskwait)
    else (s, some 0)

def enaWai (chk : ER) : Kern × Option ER :=
  s.onTask t chk E_OK (s.upd t fun c => { c with waitmask := 0 }, some E_OK)

/-- An extended system call clears the mask of its caller and puts back what it saved. -/
def svcMask (waitmask : ℕ) : Kern × Option ER :=
  (s.upd t fun c => { c with waitmask := waitmask }, none)

/-! ## `task_sync.c` -/

/-- Count the request and move to the forced wait state. -/
def suspendTask : Kern :=
  let state := (s.tcb t).state
  let s := (s.upd t fun c => { c with suscnt := c.suscnt + 1 }).note (.suspended t)
  if state = .ready then (s.makeNonReady t).upd t fun c => { c with state := .suspend }
  else if state = .wait then s.upd t fun c => { c with state := .waitsus }
  else s

def susTsk (chk : ER) : Kern × Option ER :=
  s.onTask t chk E_OBJ <|
    if (s.tcb t).suscnt = INT_MAX then (s, some E_QOVR) else (s.suspendTask t, some E_OK)

/-- What `tk_rsm_tsk` and `tk_frsm_tsk` do when no suspension is left. -/
def unsuspend : Kern :=
  if (s.tcb t).state = .suspend then s.makeReady t else s.upd t fun c => { c with state := .wait }

def resumeTask : Kern :=
  let s := (s.upd t fun c => { c with suscnt := c.suscnt - 1 }).note (.resumed t)
  if (s.tcb t).suscnt = 0 then s.unsuspend t else s

def rsmTsk (chk : ER) : Kern × Option ER :=
  s.onTask t chk E_OBJ <|
    if (s.tcb t).state = .suspend ∨ (s.tcb t).state = .waitsus then (s.resumeTask t, some E_OK)
    else (s, some E_OBJ)

def forceTask : Kern := ((s.upd t fun c => { c with suscnt := 0 }).note (.forced t)).unsuspend t

def frsmTsk (chk : ER) : Kern × Option ER :=
  s.onTask t chk E_OBJ <|
    if (s.tcb t).state = .suspend ∨ (s.tcb t).state = .waitsus then (s.forceTask t, some E_OK)
    else (s, some E_OBJ)

def slpTsk (tmout : ℤ) (chk : ER) : Kern × Option ER :=
  s.checked chk <|
    if (s.tcb t).waitmask &&& TTW_SLP ≠ 0 then (s, some E_DISWAI)
    else if (s.tcb t).wupcnt > 0 then
      ((s.upd t fun c => { c with wupcnt := c.wupcnt - 1 }).note (.slept t), some E_OK)
    else if tmout = TMO_POL then (s, some E_TMOUT)
    else (s.waitAlone t .slp (tmout ≠ TMO_FEVR) 0, none)

def wupTsk (chk : ER) : Kern × Option ER :=
  s.onTask t chk E_OBJ <|
    if (s.tcb t).state.isWait ∧ (s.tcb t).wspec = .slp then
      (((s.waitRelease t).note (.wakened t)).note (.awoken t), some E_OK)
    else if (s.tcb t).wupcnt = INT_MAX then (s, some E_QOVR)
    else ((s.upd t fun c => { c with wupcnt := c.wupcnt + 1 }).note (.wakened t), some E_OK)

def canWup (chk : ER) : Kern × Option ER :=
  s.onTask t chk E_OBJ
    ((s.upd t fun c => { c with wupcnt := 0 }).note (.cancelled t (s.tcb t).wupcnt),
      some (s.tcb t).wupcnt)

def waiTev (waiptn : ℕ) (tmout : ℤ) (chk : ER) : Kern × Option ER :=
  s.checked chk <|
    let tskevt := (s.tcb t).tskevt
    if (s.tcb t).waitmask &&& waiptn <<< 16 ≠ 0 then (s, some E_DISWAI)
    else if tskevt &&& waiptn ≠ 0 then
      (s.upd t fun c => { c with tskevt := tskevt ^^^ (tskevt &&& waiptn) }, some tskevt)
    else if tmout = TMO_POL then (s, some E_TMOUT)
    else (s.waitAlone t (.tev waiptn) (tmout ≠ TMO_FEVR) 0, none)

def sigTev (tskevt : ℕ) (chk : ER) : Kern × Option ER :=
  s.onTask t chk E_OBJ <|
    let evtmsk := 1 <<< (tskevt - 1)
    if (s.tcb t).state.isWait ∧ (s.tcb t).wspec.tskwait &&& evtmsk <<< 16 ≠ 0 then
      (s.waitRelease t, some E_OK)
    else (s.upd t fun c => { c with tskevt := c.tskevt ||| evtmsk }, some E_OK)

/-- `tk_dly_tsk`, in `time_calls.c`. -/
def dlyTsk (dlytim : ℕ) (chk : ER) : Kern × Option ER :=
  s.checked chk <|
    if dlytim = 0 then (s, some E_OK)
    else if (s.tcb t).waitmask &&& TTW_DLY ≠ 0 then (s, some E_DISWAI)
    else (s.waitAlone t .dly true 0, none)

/-! ## Creation and deletion of objects -/

/-- Initialize the control block. -/
def register (k : ObjKind) (id : ID) (atr : ℕ) : Kern :=
  { s with
    objatr := Function.update s.objatr (k, id) (some atr)
    queue := fun q => if q.1.obj = k ∧ q.2 = id then [] else s.queue q }

/-- Return the control block. -/
def unregister (k : ObjKind) (id : ID) : Kern :=
  { s with objatr := Function.update s.objatr (k, id) none }

/-- `tk_cre_sem` and the like. -/
def creObj (k : ObjKind) (id : ID) (atr : ℕ) (chk : ER) : Kern × Option ER :=
  s.checked chk <|
    if s.objatr (k, id) ≠ none then (s, some E_LIMIT) else (s.register k id atr, some E_OK)

def creMtx (id : ID) (atr ceilpri : ℕ) (chk : ER) : Kern × Option ER :=
  s.checked chk <|
    if s.objatr (.mtx, id) ≠ none then (s, some E_LIMIT)
    else
      ({ s.register .mtx id atr with
          ceilpri := Function.update s.ceilpri id ceilpri
          mtxtsk := Function.update s.mtxtsk id none }, some E_OK)

/-- Release the waiting tasks with `E_DLT` and return the control block. -/
def deleted (k : ObjKind) (id : ID) : Kern :=
  (k.queues.foldl (fun s w => s.waitDelete (w, id)) s).unregister k id

/-- `tk_del_sem` and the like. -/
def delObj (k : ObjKind) (id : ID) (chk : ER) : Kern × Option ER :=
  s.onObj k id chk fun _ => (s.deleted k id, some E_OK)

def delMtx (h : Hook) (id : ID) (chk : ER) : Kern × Option ER :=
  s.onObj .mtx id chk fun _ =>
    match s.mtxtsk id with
    | none => (s.deleted .mtx id, some E_OK)
    | some mtxtsk =>
      ((chain h.served h.depth (s.releaseMutex mtxtsk (some id))).deleted .mtx id, some E_OK)

/-! ## Waits for objects -/

/-- `tk_wai_sem`, `tk_wai_flg`, `tk_rcv_mbx`, `tk_get_mpf` and `tk_get_mpl`; `got` when the object
has what the task wants. -/
def waiObj (k : WaitKind) (id : ID) (tmout : ℤ) (got : Bool) (chk : ER) : Kern × Option ER :=
  s.onObj k.obj id chk fun atr =>
    if isDiswai atr (s.tcb t).waitmask k.tskwait then (s, some E_DISWAI)
    else if got then (s, some E_OK)
    else s.gcbMakeWaitWithDiswai t k id atr tmout

def waiSem : ID → ℤ → Bool → ER → Kern × Option ER := s.waiObj t .sem
def waiFlg : ID → ℤ → Bool → ER → Kern × Option ER := s.waiObj t .flg
def rcvMbx : ID → ℤ → Bool → ER → Kern × Option ER := s.waiObj t .mbx
def getMpf : ID → ℤ → Bool → ER → Kern × Option ER := s.waiObj t .mpf
def getMpl : ID → ℤ → Bool → ER → Kern × Option ER := s.waiObj t .mpl

/-- Release those of the tasks that are in the queue. -/
def serve (q : QueueId) (served : List Tsk) : Kern :=
  served.foldl (fun s t => if t ∈ s.queue q then s.waitRelease t else s) s

/-- `tk_sig_sem`, `tk_set_flg`, `tk_snd_mbx`, `tk_rel_mpf` and `tk_rel_mpl`; `served` are the tasks
that get what they wait for. -/
def signal (k : WaitKind) (id : ID) (served : List Tsk) (chk : ER) : Kern × Option ER :=
  s.onObj k.obj id chk fun _ => (s.serve (k, id) served, some E_OK)

def sigSem : ID → List Tsk → ER → Kern × Option ER := s.signal .sem
def setFlg : ID → List Tsk → ER → Kern × Option ER := s.signal .flg
def sndMbx : ID → List Tsk → ER → Kern × Option ER := s.signal .mbx
def relMpf : ID → List Tsk → ER → Kern × Option ER := s.signal .mpf
def relMpl : ID → List Tsk → ER → Kern × Option ER := s.signal .mpl

/-- `tk_snd_mbf`, by a task or (`none`) by a handler; `stored` when the buffer has room and the task
is first. -/
def sndMbf (caller : Option Tsk) (id : ID) (tmout : ℤ) (stored : Bool) (chk : ER) :
    Kern × Option ER :=
  s.onObj .mbf id chk fun atr =>
    if (caller.any fun t => isDiswai atr (s.tcb t).waitmask TTW_SMBF) then (s, some E_DISWAI)
    else
      match s.queue (.rmbf, id) with
      | u :: _ => (s.waitRelease u, some E_OK)
      | [] =>
        if stored then (s, some E_OK)
        else if tmout = TMO_POL then (s, some E_TMOUT)
        else
          match caller with
          | none => (s, some E_TMOUT)
          | some t => s.gcbMakeWaitWithDiswai t .smbf id atr tmout

/-- `tk_rcv_mbf`; `read` when there is a message in the buffer. -/
def rcvMbf (h : Hook) (id : ID) (tmout : ℤ) (read : Bool) (chk : ER) : Kern × Option ER :=
  s.onObj .mbf id chk fun atr =>
    if isDiswai atr (s.tcb t).waitmask TTW_RMBF then (s, some E_DISWAI)
    else if read then (wakeup (.smbf, id) h.served s, some E_OK)
    else
      match s.queue (.smbf, id) with
      | u :: _ => (wakeup (.smbf, id) h.served (s.waitRelease u), some E_OK)
      | [] =>
        if tmout = TMO_POL then (s, some E_TMOUT) else (s.gcbMakeWait t .rmbf id atr tmout, none)

/-! ## `rendezvous.c` -/

/-- The task waits for the end of its rendezvous, made through a port with these attributes. -/
def toRdv (atr : ℕ) : Kern := { s with rdvatr := Function.update s.rdvatr t atr }

/-- `found` is the first task in the accept queue whose pattern fits. -/
def calPor (id : ID) (tmout : ℤ) (found : Option Tsk) (chk : ER) : Kern × Option ER :=
  s.onObj .por id chk fun atr =>
    match found with
    | none => s.gcbMakeWaitWithDiswai t .cal id atr tmout
    | some u =>
      if isDiswai atr (s.tcb t).waitmask TTW_CAL then (s, some E_DISWAI)
      else
        let s := s.waitRelease u
        if isDiswai atr (s.tcb t).waitmask TTW_RDV then (s, some E_DISWAI)
        else ((s.waitAlone t .rdv false atr).toRdv t atr, none)

/-- `found` is the first task in the call queue whose pattern fits. -/
def acpPor (h : Hook) (id : ID) (tmout : ℤ) (found : Option Tsk) (chk : ER) : Kern × Option ER :=
  s.onObj .por id chk fun atr =>
    if isDiswai atr (s.tcb t).waitmask TTW_ACP then (s, some E_DISWAI)
    else
      match found with
      | none =>
        if tmout = TMO_POL then (s, some E_TMOUT) else (s.gcbMakeWait t .acp id atr tmout, none)
      | some u =>
        if isDiswai atr (s.tcb u).waitmask TTW_RDV then (s.waitReleaseNg u h, some E_OK)
        else (((s.waitCancel u).setWait u .rdv 0).toRdv u atr, some E_OK)

/-- The calling task `u` of the rendezvous goes to the call queue of the port. -/
def toCal (u : Tsk) (id : ID) (atr : ℕ) : Kern :=
  let s := s.setWait u (WaitKind.wspec atr .cal) id
  let s := s.upd u fun c => { c with nodiswai := atr &&& TA_NODISWAI ≠ 0, timed := false }
  s.enqueue u (.cal, id) (WaitKind.tpri atr .cal)

/-- `u` is the calling task of the rendezvous, `found` the first task in the accept queue whose
pattern fits. -/
def fwdPor (h : Hook) (id : ID) (u : Tsk) (found : Option Tsk) (chk : ER) : Kern × Option ER :=
  s.onObj .por id chk fun atr =>
    if (s.tcb u).state.isWait = false ∨ (s.tcb u).wspec ≠ .rdv then (s, some E_OBJ)
    else if isDiswai atr (s.tcb u).waitmask TTW_CAL then (s.waitReleaseNg u h, some E_DISWAI)
    else
      match found with
      | none => (s.toCal u id atr, some E_OK)
      | some v =>
        let s := s.waitRelease v
        if isDiswai atr (s.tcb u).waitmask TTW_RDV then (s.waitReleaseNg u h, some E_DISWAI)
        else ((s.upd u fun c => { c with nodiswai := atr &&& TA_NODISWAI ≠ 0 }).toRdv u atr,
          some E_OK)

def rplRdv (u : Tsk) (chk : ER) : Kern × Option ER :=
  s.checked chk <|
    if (s.tcb u).state.isWait = false ∨ (s.tcb u).wspec ≠ .rdv then (s, some E_OBJ)
    else (s.waitRelease u, some E_OK)

/-! ## `mutex.c` -/

/-- The mutex is free and the task gets it. -/
def takeMutex (h : Hook) (id : ID) (atr : ℕ) : Kern :=
  let s := s.holdMutex t id
  if atr &&& TA_CEILING = TA_CEILING ∧ (s.tcb t).priority > s.ceilpri id then
    s.changeTaskPriority t h (s.ceilpri id)
  else s

/-- Raise the holder to the priority of the task. -/
def raiseHolder (h : Hook) (mtxtsk : Tsk) (atr : ℕ) : Kern :=
  if atr &&& TA_CEILING = TA_INHERIT ∧ (s.tcb mtxtsk).priority > (s.tcb t).priority then
    s.changeTaskPriority mtxtsk h (s.tcb t).priority
  else s

def locMtx (h : Hook) (id : ID) (tmout : ℤ) (chk : ER) : Kern × Option ER :=
  s.onObj .mtx id chk fun atr =>
    if s.mtxtsk id = some t then (s, some E_ILUSE)
    else if atr &&& TA_CEILING = TA_CEILING ∧ (s.tcb t).bpriority < s.ceilpri id then
      (s, some E_ILUSE)
    else if isDiswai atr (s.tcb t).waitmask TTW_MTX then (s, some E_DISWAI)
    else
      match s.mtxtsk id with
      | none => (s.takeMutex t h id atr, some E_OK)
      | some mtxtsk =>
        if tmout = TMO_POL then (s, some E_TMOUT)
        else ((s.raiseHolder t h mtxtsk atr).gcbMakeWait t .mtx id atr tmout, none)

def unlMtx (h : Hook) (id : ID) (chk : ER) : Kern × Option ER :=
  s.onObj .mtx id chk fun _ =>
    if s.mtxtsk id ≠ some t then (s, some E_ILUSE)
    else ((chain h.served h.depth (s.releaseMutex t (some id))).passMutex h id, some E_OK)

/-- The timer handler takes the event out of its queue and calls `wait_release_tmout`. -/
def timeout (h : Hook) : Kern × Option ER := (s.waitReleaseNg t h, none)

/-- The task is in execution, perhaps suspended since by another processor. -/
def Runs : Prop := (s.tcb t).state = .ready ∨ (s.tcb t).state = .suspend

/-- No task and no object exists. -/
structure Initial : Prop where
  state : ∀ t, (s.tcb t).state = .nonexist
  ready : ∀ t, (s.tcb t).ready = false
  timed : ∀ t, (s.tcb t).timed = false
  objatr : ∀ o, s.objatr o = none
  queue : ∀ q, s.queue q = []
  log : s.log = []

end Kern

/-! ## Runs -/

/-- The calls; in those a task makes for itself, the task comes first. -/
inductive KernOp
  | creTsk (t : Tsk) (ipriority : ℕ) (chk : ER)
  | delTsk (t : Tsk) (chk : ER)
  | staTsk (t : Tsk) (chk : ER)
  | extTsk (t : Tsk) (h : Hook)
  | exdTsk (t : Tsk) (h : Hook)
  | terTsk (t : Tsk) (h : Hook) (chk : ER)
  | chgPri (t : Tsk) (h : Hook) (tskpri : Option ℕ) (chk : ER)
  | relWai (t : Tsk) (h : Hook) (chk : ER)
  | disWai (t : Tsk) (h : Hook) (waitmask : ℕ) (chk : ER)
  | enaWai (t : Tsk) (chk : ER)
  | svcMask (t : Tsk) (waitmask : ℕ)
  | susTsk (t : Tsk) (chk : ER)
  | rsmTsk (t : Tsk) (chk : ER)
  | frsmTsk (t : Tsk) (chk : ER)
  | slpTsk (t : Tsk) (tmout : ℤ) (chk : ER)
  | wupTsk (t : Tsk) (chk : ER)
  | canWup (t : Tsk) (chk : ER)
  | waiTev (t : Tsk) (waiptn : ℕ) (tmout : ℤ) (chk : ER)
  | sigTev (t : Tsk) (tskevt : ℕ) (chk : ER)
  | dlyTsk (t : Tsk) (dlytim : ℕ) (chk : ER)
  | creObj (k : ObjKind) (id : ID) (atr : ℕ) (chk : ER)
  | creMtx (id : ID) (atr ceilpri : ℕ) (chk : ER)
  | delObj (k : ObjKind) (id : ID) (chk : ER)
  | delMtx (h : Hook) (id : ID) (chk : ER)
  | waiSem (t : Tsk) (id : ID) (tmout : ℤ) (got : Bool) (chk : ER)
  | waiFlg (t : Tsk) (id : ID) (tmout : ℤ) (got : Bool) (chk : ER)
  | rcvMbx (t : Tsk) (id : ID) (tmout : ℤ) (got : Bool) (chk : ER)
  | getMpf (t : Tsk) (id : ID) (tmout : ℤ) (got : Bool) (chk : ER)
  | getMpl (t : Tsk) (id : ID) (tmout : ℤ) (got : Bool) (chk : ER)
  | sigSem (id : ID) (served : List Tsk) (chk : ER)
  | setFlg (id : ID) (served : List Tsk) (chk : ER)
  | sndMbx (id : ID) (served : List Tsk) (chk : ER)
  | relMpf (id : ID) (served : List Tsk) (chk : ER)
  | relMpl (id : ID) (served : List Tsk) (chk : ER)
  | sndMbf (caller : Option Tsk) (id : ID) (tmout : ℤ) (stored : Bool) (chk : ER)
  | rcvMbf (t : Tsk) (h : Hook) (id : ID) (tmout : ℤ) (read : Bool) (chk : ER)
  | calPor (t : Tsk) (id : ID) (tmout : ℤ) (found : Option Tsk) (chk : ER)
  | acpPor (t : Tsk) (h : Hook) (id : ID) (tmout : ℤ) (found : Option Tsk) (chk : ER)
  | fwdPor (h : Hook) (id : ID) (u : Tsk) (found : Option Tsk) (chk : ER)
  | rplRdv (u : Tsk) (chk : ER)
  | locMtx (t : Tsk) (h : Hook) (id : ID) (tmout : ℤ) (chk : ER)
  | unlMtx (t : Tsk) (h : Hook) (id : ID) (chk : ER)
  | timeout (t : Tsk) (h : Hook)

namespace KernOp

def exec (s : Kern) : KernOp → Kern × Option ER
  | creTsk t ipriority chk => s.creTsk t ipriority chk
  | delTsk t chk => s.delTsk t chk
  | staTsk t chk => s.staTsk t chk
  | extTsk t h => s.extTsk t h
  | exdTsk t h => s.exdTsk t h
  | terTsk t h chk => s.terTsk t h chk
  | chgPri t h tskpri chk => s.chgPri t h tskpri chk
  | relWai t h chk => s.relWai t h chk
  | disWai t h waitmask chk => s.disWai t h waitmask chk
  | enaWai t chk => s.enaWai t chk
  | svcMask t waitmask => s.svcMask t waitmask
  | susTsk t chk => s.susTsk t chk
  | rsmTsk t chk => s.rsmTsk t chk
  | frsmTsk t chk => s.frsmTsk t chk
  | slpTsk t tmout chk => s.slpTsk t tmout chk
  | wupTsk t chk => s.wupTsk t chk
  | canWup t chk => s.canWup t chk
  | waiTev t waiptn tmout chk => s.waiTev t waiptn tmout chk
  | sigTev t tskevt chk => s.sigTev t tskevt chk
  | dlyTsk t dlytim chk => s.dlyTsk t dlytim chk
  | creObj k id atr chk => s.creObj k id atr chk
  | creMtx id atr ceilpri chk => s.creMtx id atr ceilpri chk
  | delObj k id chk => s.delObj k id chk
  | delMtx h id chk => s.delMtx h id chk
  | waiSem t id tmout got chk => s.waiSem t id tmout got chk
  | waiFlg t id tmout got chk => s.waiFlg t id tmout got chk
  | rcvMbx t id tmout got chk => s.rcvMbx t id tmout got chk
  | getMpf t id tmout got chk => s.getMpf t id tmout got chk
  | getMpl t id tmout got chk => s.getMpl t id tmout got chk
  | sigSem id served chk => s.sigSem id served chk
  | setFlg id served chk => s.setFlg id served chk
  | sndMbx id served chk => s.sndMbx id served chk
  | relMpf id served chk => s.relMpf id served chk
  | relMpl id served chk => s.relMpl id served chk
  | sndMbf caller id tmout stored chk => s.sndMbf caller id tmout stored chk
  | rcvMbf t h id tmout read chk => s.rcvMbf t h id tmout read chk
  | calPor t id tmout found chk => s.calPor t id tmout found chk
  | acpPor t h id tmout found chk => s.acpPor t h id tmout found chk
  | fwdPor h id u found chk => s.fwdPor h id u found chk
  | rplRdv u chk => s.rplRdv u chk
  | locMtx t h id tmout chk => s.locMtx t h id tmout chk
  | unlMtx t h id chk => s.unlMtx t h id chk
  | timeout t h => s.timeout t h

/-- The task that makes the call for itself. -/
def caller : KernOp → Option Tsk
  | extTsk t _ | exdTsk t _ | svcMask t _ | slpTsk t _ _ | waiTev t _ _ _ | dlyTsk t _ _
  | waiSem t _ _ _ _ | waiFlg t _ _ _ _ | rcvMbx t _ _ _ _ | getMpf t _ _ _ _
  | getMpl t _ _ _ _ | sndMbf (some t) _ _ _ _ | rcvMbf t _ _ _ _ _ | calPor t _ _ _ _
  | acpPor t _ _ _ _ _ | locMtx t _ _ _ _ | unlMtx t _ _ _ => some t
  | _ => none

/-- What the parameters of the call are to be: a search finds a task of the queue it goes through, a
timeout comes for a task that is in the timer queue. -/
def Fits (s : Kern) : KernOp → Prop
  | calPor _ id _ found _ | fwdPor _ id _ found _ => ∀ u ∈ found, u ∈ s.queue (.acp, id)
  | acpPor _ _ id _ found _ => ∀ u ∈ found, u ∈ s.queue (.cal, id)
  | creObj k _ _ _ | delObj k _ _ => k ≠ .mtx
  | timeout t _ => (s.tcb t).timed
  | _ => True

end KernOp

variable {ok : Kern → KernOp → Prop} {s : Kern}

/-- The states reached by calls that are `ok`. A task that its termination left in the queue of a
mutex stays there when it is started again; the one pair of links in its control block is then part
of the ready queue too, and what the code does as it follows them from one ring into the other is
left out. -/
inductive KernRun (ok : Kern → KernOp → Prop) : Kern → Prop
  | init (s : Kern) (initial : s.Initial) : KernRun ok s
  | step {s : Kern} (run : KernRun ok s) (op : KernOp) (runs : ∀ t ∈ op.caller, s.Runs t)
      (fits : op.Fits s) (hok : ok s op) : KernRun ok (op.exec s).1

end SmpTKernel
