import SmpTKernel.WaitQueue

/-!
# Semaphores

`semaphore.c`: counts are returned and taken; a task that finds too few waits, and is served when
counts come back, when a task before it leaves or when the order of the queue changes. The state is
the control block and what the tasks contribute; the history of counts is recorded by the routines
as events. A value that a call returns at once is the last component of the result.
-/

namespace SmpTKernel

/-- A task that requests few counts takes precedence. -/
abbrev TA_CNT : ℕ := 0x00000002

/-- Semaphore control block, and the fields of the tasks it works with. -/
structure Semcb where
  wait_queue : List Tsk
  sematr : ℕ
  semcnt : ℤ
  maxsem : ℤ
  priority : Tsk → ℕ
  waitmask : Tsk → ℕ
  nodiswai : Tsk → Bool
  /-- `winfo.sem.cnt` -/
  cnt : Tsk → ℤ

/-- What happens to counts and waits. -/
inductive SemEvent
  | signalled (cnt : ℤ)
  | granted (t : Tsk) (cnt : ℤ)
  /-- A wait ends without its counts, with an error or with its task. -/
  | waitEnds (t : Tsk) (ercd : Option ER)
  deriving DecidableEq, Repr

abbrev SemResult := Semcb × List SemEvent × Option ℤ

/-- `_tk_cre_sem`: the error, or the new control block. -/
def tkCreSem (rsatrOk : Bool) (prot : ER) (sematr : ℕ) (isemcnt maxsem : ℤ) (s : Semcb) :
    Except ER Semcb :=
  if !rsatrOk then .error E_RSATR
  else if ¬isemcnt ≥ 0 then .error E_PAR
  else if ¬maxsem > 0 then .error E_PAR
  else if ¬maxsem ≥ isemcnt then .error E_PAR
  else if prot ≠ E_OK then .error prot
  else
    .ok { s with
      wait_queue := []
      sematr := sematr
      semcnt := isemcnt
      maxsem := maxsem }

namespace Semcb

variable (s : Semcb)

/-- The counts of a task that is released. -/
def grant (t : Tsk) : Semcb := { s with semcnt := s.semcnt - s.cnt t }

/-- The loop of `sem_chg_pri`: from the head task in the wait queue, allocate semaphore counts and
release wait state as much as possible. -/
def wakeupLoop (s : Semcb) : List Tsk → Semcb × List SemEvent
  | [] => ({ s with wait_queue := [] }, [])
  | top :: queue =>
    if s.semcnt < s.cnt top then ({ s with wait_queue := top :: queue }, [])
    else
      let r := wakeupLoop (s.grant top) queue
      (r.1, .granted top (s.cnt top) :: r.2)

/-- Processing if the priority of a waiting task changes (`oldpri >= 0`) or its wait ends. -/
def semChgPri (t : Tsk) (oldpri : ℤ) : Semcb × List SemEvent :=
  -- reorder wait line
  let s :=
    if oldpri ≥ 0 then { s with wait_queue := gcbChangePriority s.priority t s.wait_queue } else s
  if s.sematr &&& TA_CNT ≠ 0 then (s, []) else s.wakeupLoop s.wait_queue

def semRelWai (t : Tsk) : Semcb × List SemEvent := s.semChgPri t (-1)

/-! ## System calls

`idOk` says that the identifier is in its range, `prot` is the result of the checks of existence,
domain and protection, `ddsp` says that dispatching is disabled. -/

/-- The loop of `_tk_sig_sem`, over the tasks left in the queue: search tasks that free wait. -/
def sigLoop (s : Semcb) : List Tsk → Semcb × List SemEvent
  | [] => ({ s with wait_queue := [] }, [])
  | tcb :: queue =>
    if s.semcnt < s.cnt tcb then
      if s.sematr &&& TA_CNT = 0 then ({ s with wait_queue := tcb :: queue }, [])
      else
        let r := sigLoop s queue
        ({ r.1 with wait_queue := tcb :: r.1.wait_queue }, r.2)
    else
      let s' := s.grant tcb
      if s'.semcnt ≤ 0 then ({ s' with wait_queue := queue }, [.granted tcb (s.cnt tcb)])
      else
        let r := sigLoop s' queue
        (r.1, .granted tcb (s.cnt tcb) :: r.2)

def tkSigSem (idOk : Bool) (prot : ER) (cnt : ℤ) : SemResult :=
  if !idOk then (s, [], some E_ID)
  else if ¬cnt > 0 then (s, [], some E_PAR)
  else if prot ≠ E_OK then (s, [], some prot)
  else if cnt > s.maxsem - s.semcnt then (s, [], some E_QOVR)
  else
    let r := sigLoop { s with semcnt := s.semcnt + cnt } s.wait_queue
    (r.1, .signalled cnt :: r.2, some E_OK)

/-- The part of `gcb_make_wait_with_diswai` that waits. -/
def makeWait (self : Tsk) : Semcb :=
  { s with
    wait_queue := gcbInsert s.sematr s.priority self s.wait_queue
    nodiswai := Function.update s.nodiswai self (s.sematr &&& TA_NODISWAI ≠ 0) }

def tkWaiSem (self : Tsk) (idOk ddsp : Bool) (prot : ER) (cnt tmout : ℤ) : SemResult :=
  if !idOk then (s, [], some E_ID)
  else if ¬cnt > 0 then (s, [], some E_PAR)
  else if ¬tmout ≥ TMO_FEVR then (s, [], some E_PAR)
  else if ddsp then (s, [], some E_CTX)
  else if prot ≠ E_OK then (s, [], some prot)
  else if cnt > s.maxsem then (s, [], some E_PAR)
  else if isDiswai s.sematr (s.waitmask self) TTW_SEM then (s, [], some E_DISWAI)
  else if (s.sematr &&& TA_CNT ≠ 0 ∨
      gcbTopOfWaitQueue s.sematr s.priority self s.wait_queue = self) ∧ s.semcnt ≥ cnt then
    ({ s with semcnt := s.semcnt - cnt }, [.granted self cnt], some E_OK)
  else
    -- ready for wait
    let s := { s with cnt := Function.update s.cnt self cnt }
    if isDiswai s.sematr (s.waitmask self) TTW_SEM then (s, [], some E_DISWAI)
    else if tmout = TMO_POL then (s, [], some E_TMOUT)
    else (s.makeWait self, [], none)

/-! ## The end of a wait -/

/-- The wait of a task ends with an error, or (`none`) with its task; the hook of the semaphore
runs. -/
def endWait (t : Tsk) (ercd : Option ER) : Semcb × List SemEvent :=
  let r := { s with wait_queue := s.wait_queue.erase t }.semRelWai t
  (r.1, .waitEnds t ercd :: r.2)

/-- `wait_release_tmout`, for a task in this queue. -/
def waitReleaseTmout (t : Tsk) : SemResult :=
  if t ∈ s.wait_queue then ((s.endWait t (some E_TMOUT)).1, (s.endWait t (some E_TMOUT)).2, none)
  else (s, [], none)

/-- `_tk_rel_wai`; `chk` is the result of its checks. -/
def tkRelWai (t : Tsk) (chk : ER) : SemResult :=
  if chk ≠ E_OK then (s, [], some chk)
  else if t ∈ s.wait_queue then
    let r := s.endWait t (some E_RLWAI)
    (r.1, r.2, some E_OK)
  else (s, [], some E_OK)

/-- `_tk_dis_wai`; `elsewhere` is its result for a task that does not wait here. -/
def tkDisWai (t : Tsk) (waitmask : ℕ) (chk : ER) (elsewhere : ℤ) : SemResult :=
  if chk ≠ E_OK then (s, [], some chk)
  else
    let s := { s with waitmask := Function.update s.waitmask t waitmask }
    if t ∈ s.wait_queue then
      if TTW_SEM &&& waitmask ≠ 0 ∧ !s.nodiswai t then
        let r := s.endWait t (some E_DISWAI)
        (r.1, r.2, some 0)
      else (s, [], some TTW_SEM)
    else (s, [], some elsewhere)

/-- `_tk_ena_wai`. -/
def tkEnaWai (t : Tsk) (chk : ER) : SemResult :=
  if chk ≠ E_OK then (s, [], some chk)
  else ({ s with waitmask := Function.update s.waitmask t 0 }, [], some E_OK)

/-- `_tk_ter_tsk`; `_ter_tsk` cancels the wait. -/
def tkTerTsk (t : Tsk) (chk : ER) : SemResult :=
  if chk ≠ E_OK then (s, [], some chk)
  else if t ∈ s.wait_queue then
    let r := s.endWait t none
    (r.1, r.2, some E_OK)
  else (s, [], some E_OK)

/-- `change_task_priority`; only tasks that wait for a `TA_TPRI` semaphore have a hook. -/
def changeTaskPriority (t : Tsk) (priority : ℕ) : Semcb × List SemEvent :=
  let oldpri := s.priority t
  let s := { s with priority := Function.update s.priority t priority }
  if t ∈ s.wait_queue ∧ s.sematr &&& TA_TPRI ≠ 0 then s.semChgPri t oldpri else (s, [])

/-- `_tk_chg_pri`, and changes of priorities through mutexes. -/
def tkChgPri (t : Tsk) (priority : ℕ) (chk : ER) : SemResult :=
  if chk ≠ E_OK then (s, [], some chk)
  else
    let r := s.changeTaskPriority t priority
    (r.1, r.2, some E_OK)

end Semcb

/-! ## Runs -/

inductive SemOp
  | sigSem (idOk : Bool) (prot : ER) (cnt : ℤ)
  | waiSem (self : Tsk) (idOk ddsp : Bool) (prot : ER) (cnt tmout : ℤ)
  | timeout (t : Tsk)
  | relWai (t : Tsk) (chk : ER)
  | disWai (t : Tsk) (waitmask : ℕ) (chk : ER) (elsewhere : ℤ)
  | enaWai (t : Tsk) (chk : ER)
  | terTsk (t : Tsk) (chk : ER)
  | chgPri (t : Tsk) (priority : ℕ) (chk : ER)
  deriving DecidableEq, Repr

def SemOp.exec (s : Semcb) : SemOp → SemResult
  | sigSem idOk prot cnt => s.tkSigSem idOk prot cnt
  | waiSem self idOk ddsp prot cnt tmout => s.tkWaiSem self idOk ddsp prot cnt tmout
  | timeout t => s.waitReleaseTmout t
  | relWai t chk => s.tkRelWai t chk
  | disWai t waitmask chk elsewhere => s.tkDisWai t waitmask chk elsewhere
  | enaWai t chk => s.tkEnaWai t chk
  | terTsk t chk => s.tkTerTsk t chk
  | chgPri t priority chk => s.tkChgPri t priority chk

/-- A task that waits makes no call. -/
def SemOp.Legal (s : Semcb) : SemOp → Prop
  | waiSem self _ _ _ _ _ => self ∉ s.wait_queue
  | _ => True

/-- The states a semaphore reaches from its creation, with their histories. -/
inductive SemRun (isemcnt : ℤ) : Semcb → List SemEvent → Prop
  | create {rsatrOk : Bool} {prot : ER} {sematr : ℕ} {maxsem : ℤ} {s₀ s : Semcb}
      (h : tkCreSem rsatrOk prot sematr isemcnt maxsem s₀ = .ok s) : SemRun isemcnt s []
  | step {s : Semcb} {log : List SemEvent} (op : SemOp) (run : SemRun isemcnt s log)
      (legal : op.Legal s) : SemRun isemcnt (op.exec s).1 (log ++ (op.exec s).2.1)

end SmpTKernel
