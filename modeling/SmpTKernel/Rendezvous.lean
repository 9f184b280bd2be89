import SmpTKernel.WaitQueue

/-!
# Rendezvous ports

`rendezvous.c`: a caller waits to be accepted, and then, under a number that names it, for the end
of the rendezvous, which a reply brings; a forward passes the caller on to another port. The state
is the control blocks of the ports, the fields of the tasks they work with, and the memory the
messages are in; the history is recorded by the routines as events. A value that a call returns at
once is the last component of the result.
-/

namespace SmpTKernel

/-- The wait specifications, by what `wspec` points to. -/
inductive Wspec
  | calTfifo
  | calTpri
  | acp
  | rdv
  /-- The specification of another kind of wait. -/
  | other (tskwait : ℕ)
  deriving DecidableEq, Repr

def Wspec.tskwait : Wspec → ℕ
  | calTfifo | calTpri => TTW_CAL
  | acp => TTW_ACP
  | rdv => TTW_RDV
  | other tskwait => tskwait

/-- `winfo`, the members of which share their places. -/
structure Winfo where
  /-- `calptn`, `acpptn` or `rdvno`. -/
  word : BitVec 32
  msg : ℕ
  /-- `cmsgsz` or `maxrmsz`. -/
  size : ℤ
  deriving DecidableEq, Repr

/-- The fields of a task control block about waiting and rendezvous. -/
structure PorTcb where
  state : TaskState
  priority : ℕ
  wspec : Wspec
  /-- The place of the port the task waits at. -/
  wid : ℕ
  nodiswai : Bool
  waitmask : ℕ
  winfo : Winfo
  wrdvno : BitVec 32
  /-- `wtmeb` is in the timer queue. -/
  timed : Bool

/-- Rendezvous port control block. -/
structure Porcb where
  call_queue : List Tsk
  porid : BitVec 32
  poratr : ℕ
  accept_queue : List Tsk
  maxcmsz : ℤ
  maxrmsz : ℤ

structure PorState where
  porcb : ℕ → Porcb
  tcb : Tsk → PorTcb
  mem : Bytes

/-- What happens to ports and calls. -/
inductive PorEvent
  | creates (port : ℕ) (maxcmsz maxrmsz : ℤ)
  /-- A task calls at a port. -/
  | calls (t : Tsk) (port : ℕ) (calptn : BitVec 32) (cmsgsz : ℤ)
  /-- A task asks at a port for a call to accept. -/
  | asks (t : Tsk) (port : ℕ) (acpptn : BitVec 32)
  /-- The call of `caller` is accepted: its message is copied, and the acceptor gets the number. -/
  | accepts (acceptor : Tsk) (acpptn : BitVec 32) (caller : Tsk) (port : ℕ)
      (calptn rdvno : BitVec 32) (cmsgsz : ℤ)
  | forwards (rdvno : BitVec 32) (caller : Tsk) (port : ℕ) (calptn : BitVec 32) (cmsgsz : ℤ)
  | replies (rdvno : BitVec 32) (caller : Tsk) (rmsgsz : ℤ)
  /-- A call ends with an error, or its task ends. -/
  | callEnds (t : Tsk) (ercd : Option ER)
  | askEnds (t : Tsk) (ercd : Option ER)
  deriving DecidableEq, Repr

abbrev PorResult := PorState × List PorEvent × Option ℤ

namespace PorTcb

variable (tcb : PorTcb)

/-- `TS_WAIT` is set. -/
def waiting : Bool := tcb.state = .wait ∨ tcb.state = .waitsus

/-- The changes of `make_non_wait` and `timer_delete`. -/
def release : PorTcb :=
  { tcb with state := if tcb.state = .wait then .ready else .suspend, timed := false }

/-- The changes of `make_wait`. -/
def wait (tmout : ℤ) (atr : ℕ) : PorTcb :=
  { tcb with
    state :=
      match tcb.state with
      | .ready => .wait
      | .suspend => .waitsus
      | s => s
    nodiswai := atr &&& TA_NODISWAI ≠ 0
    timed := tmout ≠ TMO_FEVR }

end PorTcb

/-! ## Rendezvous numbers -/

abbrev RDVNO_MASK : BitVec 32 := 0xf000
abbrev RDVNO_DOMID_MASK : BitVec 32 := 0x00ff0000
abbrev RDVNO_OBJID_MASK : BitVec 32 := 0x0000ffff

/-- The number after `wrdvno`. -/
def nextRdvno (wrdvno : BitVec 32) : BitVec 32 :=
  (wrdvno &&& ~~~RDVNO_MASK) ||| ((wrdvno + (1#32 <<< 12)) &&& RDVNO_MASK)

def getTskidRdvno (rdvno : BitVec 32) : BitVec 32 := rdvno &&& ~~~RDVNO_MASK

/-- `GET_OBJID`. -/
def getObjid (id : BitVec 32) : ℕ := (id &&& RDVNO_OBJID_MASK).toNat

def getDomid (id : BitVec 32) : ℕ := ((id &&& RDVNO_DOMID_MASK) >>> 16).toNat

def getPrid (id : BitVec 32) : ℕ := ((id &&& 0x0f000000) >>> 24).toNat

/-- `INDEX_TSK`. -/
def indexTsk (id : BitVec 32) : Tsk := getObjid id - 1

/-- `ID_TSK`. -/
def idTsk (index : ℕ) : BitVec 32 := BitVec.ofNat 32 (index + 1) ||| (1#32 <<< 24)

/-- `CHECK_RDVNO`. -/
def checkRdvno (maxTskid maxDomid : ℕ) (rdvno : BitVec 32) : Bool :=
  let id := getTskidRdvno rdvno
  1 ≤ getObjid id ∧ getObjid id ≤ maxTskid ∧ getDomid id ≤ maxDomid ∧ getPrid id = 1

namespace PorState

variable (s : PorState)

def setTcb (t : Tsk) (tcb : PorTcb) : PorState := { s with tcb := Function.update s.tcb t tcb }

def setPorcb (p : ℕ) (porcb : Porcb) : PorState :=
  { s with porcb := Function.update s.porcb p porcb }

/-- `memcpy`, for a message that is not empty. -/
def memcpy (dst src : ℕ) (n : ℤ) : PorState :=
  { s with
    mem := fun a => if dst ≤ a ∧ (a - dst : ℤ) < n then s.mem (src + (a - dst)) else s.mem a }

/-- `gen_rdvno`: the number, and the state with the next one. -/
def genRdvno (t : Tsk) : BitVec 32 × PorState :=
  ((s.tcb t).wrdvno, s.setTcb t { s.tcb t with wrdvno := nextRdvno (s.tcb t).wrdvno })

/-! ## Waits -/

/-- `QueRemove(&tcb->tskque)`, whichever queue the task is in. -/
def queRemove (t : Tsk) : PorState :=
  { s with porcb := fun p =>
      { s.porcb p with
        call_queue := (s.porcb p).call_queue.erase t
        accept_queue := (s.porcb p).accept_queue.erase t } }

/-- `wait_release`. -/
def waitRelease (t : Tsk) : PorState := (s.queRemove t).setTcb t (s.tcb t).release

/-- What the end of a wait means for the call that waits. -/
def endEvents (t : Tsk) (ercd : Option ER) : List PorEvent :=
  match (s.tcb t).wspec with
  | .calTfifo | .calTpri | .rdv => [.callEnds t ercd]
  | .acp => [.askEnds t ercd]
  | .other _ => []

/-- `wait_release_ng`. -/
def waitReleaseNg (t : Tsk) (ercd : ER) : PorState × List PorEvent :=
  (s.waitRelease t, s.endEvents t (some ercd))

/-- `wait_delete`. -/
def waitDelete : List Tsk → PorState → PorState × List PorEvent
  | [], s => (s, [])
  | t :: queue, s =>
    let r := s.waitReleaseNg t E_DLT
    let r' := waitDelete queue r.1
    (r'.1, r.2 ++ r'.2)

/-- The first task in a queue whose pattern meets `ptn`. -/
def searchPtn (ptn : BitVec 32) (queue : List Tsk) : Option Tsk :=
  queue.find? fun t => ptn &&& (s.tcb t).winfo.word ≠ 0

def isDiswai (p : ℕ) (t : Tsk) (tskwait : ℕ) : Bool :=
  SmpTKernel.isDiswai (s.porcb p).poratr (s.tcb t).waitmask tskwait

/-- `wspec_cal_tfifo` or `wspec_cal_tpri`. -/
def wspecCal (p : ℕ) : Wspec := if (s.porcb p).poratr &&& TA_TPRI ≠ 0 then .calTpri else .calTfifo

/-- The call queue with one more task. -/
def callInsert (p : ℕ) (t : Tsk) : PorState :=
  s.setPorcb p { s.porcb p with
    call_queue :=
      gcbInsert (s.porcb p).poratr (fun u => (s.tcb u).priority) t (s.porcb p).call_queue }

/-- A task that is being accepted at `p` is ready for rendezvous end wait. -/
def readyRdv (p : ℕ) (t : Tsk) (rdvno : BitVec 32) (msg : ℕ) (tcb : PorTcb) : PorState :=
  s.setTcb t { tcb with wspec := .rdv, wid := 0, winfo := ⟨rdvno, msg, (s.porcb p).maxrmsz⟩ }

/-! ## Ports -/

/-- The control block of a new port. -/
def tkCrePor (p : ℕ) (porid : BitVec 32) (poratr : ℕ) (maxcmsz maxrmsz : ℤ) : PorResult :=
  if ¬maxcmsz ≥ 0 then (s, [], some E_PAR)
  else if ¬maxrmsz ≥ 0 then (s, [], some E_PAR)
  else
    (s.setPorcb p ⟨[], porid, poratr, [], maxcmsz, maxrmsz⟩, [.creates p maxcmsz maxrmsz],
      some porid.toInt)

def tkDelPor (p : ℕ) (idOk indp : Bool) (prot : ER) : PorResult :=
  if !idOk then (s, [], some E_ID)
  else if indp then (s, [], some E_CTX)
  else if (s.porcb p).porid = 0 then (s, [], some E_NOEXS)
  else if prot ≠ E_OK then (s, [], some prot)
  else
    let r := waitDelete (s.porcb p).call_queue s
    let r' := waitDelete (r.1.porcb p).accept_queue r.1
    (r'.1.setPorcb p { r'.1.porcb p with porid := 0 }, r.2 ++ r'.2, some E_OK)

/-! ## Calls

`idOk` says that the identifier of the port is in its range, `ddsp` that dispatching is disabled,
`indp` that a task-independent part calls, and `prot` is the result of the check of domain and
protection. What a call does when it finds a task to meet, and what it does otherwise, have a
definition each. -/

/-- Send message: the call of `cal` goes to `t`, which waits to accept, under a new number. -/
def sendMessage (cal t : Tsk) (msg : ℕ) (cmsgsz : ℤ) : PorState :=
  ((s.genRdvno cal).2.memcpy (s.tcb t).winfo.msg msg cmsgsz).waitRelease t

/-- The call finds the task `t`, which waits to accept. -/
def calMeet (self : Tsk) (p : ℕ) (calptn : BitVec 32) (msg : ℕ) (cmsgsz : ℤ) (t : Tsk) :
    PorResult :=
  let calls := PorEvent.calls self p calptn cmsgsz
  if s.isDiswai p self TTW_CAL then (s, [calls, .callEnds self (some E_DISWAI)], some E_DISWAI)
  else
    let rdvno := (s.genRdvno self).1
    let s' := s.sendMessage self t msg cmsgsz
    let accepts := PorEvent.accepts t (s.tcb t).winfo.word self p calptn rdvno cmsgsz
    if s.isDiswai p self TTW_RDV then
      (s', [calls, accepts, .callEnds self (some E_DISWAI)], some E_DISWAI)
    else
      -- ready for rendezvous end wait
      (s'.readyRdv p self rdvno msg ((s'.tcb self).wait TMO_FEVR (s.porcb p).poratr),
        [calls, accepts], none)

/-- Ready for rendezvous call wait. -/
def calWait (self : Tsk) (p : ℕ) (calptn : BitVec 32) (msg : ℕ) (cmsgsz tmout : ℤ) : PorResult :=
  let calls := PorEvent.calls self p calptn cmsgsz
  let s' := s.setTcb self { s.tcb self with wspec := s.wspecCal p, winfo := ⟨calptn, msg, cmsgsz⟩ }
  if s.isDiswai p self TTW_CAL then (s', [calls, .callEnds self (some E_DISWAI)], some E_DISWAI)
  else if tmout = TMO_POL then (s', [calls, .callEnds self (some E_TMOUT)], some E_TMOUT)
  else
    let tcb := (s'.tcb self).wait tmout (s.porcb p).poratr
    ((s'.setTcb self { tcb with wid := p }).callInsert p self, [calls], none)

def tkCalPor (self : Tsk) (p : ℕ) (idOk ddsp : Bool) (prot : ER) (calptn : BitVec 32) (msg : ℕ)
    (cmsgsz tmout : ℤ) : PorResult :=
  if !idOk then (s, [], some E_ID)
  else if calptn = 0 then (s, [], some E_PAR)
  else if ¬cmsgsz ≥ 0 then (s, [], some E_PAR)
  else if ¬tmout ≥ TMO_FEVR then (s, [], some E_PAR)
  else if ddsp then (s, [], some E_CTX)
  else if (s.porcb p).porid = 0 then (s, [], some E_NOEXS)
  else if prot ≠ E_OK then (s, [], some prot)
  else if cmsgsz > (s.porcb p).maxcmsz then (s, [], some E_PAR)
  else
    match s.searchPtn calptn (s.porcb p).accept_queue with
    | some t => s.calMeet self p calptn msg cmsgsz t
    | none => s.calWait self p calptn msg cmsgsz tmout

/-- The acceptance finds the task `t`, which waits to be accepted. -/
def acpMeet (self : Tsk) (p : ℕ) (acpptn : BitVec 32) (msg : ℕ) (t : Tsk) : PorResult :=
  let asks := PorEvent.asks self p acpptn
  if s.isDiswai p self TTW_ACP then (s, [asks, .askEnds self (some E_DISWAI)], some E_DISWAI)
  else
    -- receive message
    let rdvno := (s.genRdvno t).1
    let cal := (s.tcb t).winfo
    let s' := (s.genRdvno t).2.memcpy msg cal.msg cal.size
    let accepts := PorEvent.accepts self acpptn t p cal.word rdvno cal.size
    if s.isDiswai p t TTW_RDV then
      let r := s'.waitReleaseNg t E_DISWAI
      (r.1, asks :: accepts :: r.2, some cal.size)
    else
      -- make the other task at rendezvous end wait state
      let s' := s'.queRemove t
      (s'.readyRdv p t rdvno cal.msg { s'.tcb t with timed := false }, [asks, accepts],
        some cal.size)

/-- Ready for rendezvous accept wait. -/
def acpWait (self : Tsk) (p : ℕ) (acpptn : BitVec 32) (msg : ℕ) (tmout : ℤ) : PorResult :=
  let asks := PorEvent.asks self p acpptn
  if s.isDiswai p self TTW_ACP then (s, [asks, .askEnds self (some E_DISWAI)], some E_DISWAI)
  else if tmout = TMO_POL then (s, [asks, .askEnds self (some E_TMOUT)], some E_TMOUT)
  else
    let tcb := (s.tcb self).wait tmout (s.porcb p).poratr
    let s' :=
      s.setTcb self { tcb with wspec := .acp, wid := p, winfo := ⟨acpptn, msg, tcb.winfo.size⟩ }
    (s'.setPorcb p { s.porcb p with accept_queue := (s.porcb p).accept_queue ++ [self] },
      [asks], none)

def tkAcpPor (self : Tsk) (p : ℕ) (idOk ddsp : Bool) (prot : ER) (acpptn : BitVec 32) (msg : ℕ)
    (tmout : ℤ) : PorResult :=
  if !idOk then (s, [], some E_ID)
  else if acpptn = 0 then (s, [], some E_PAR)
  else if ¬tmout ≥ TMO_FEVR then (s, [], some E_PAR)
  else if ddsp then (s, [], some E_CTX)
  else if (s.porcb p).porid = 0 then (s, [], some E_NOEXS)
  else if prot ≠ E_OK then (s, [], some prot)
  else
    match s.searchPtn acpptn (s.porcb p).call_queue with
    | some t => s.acpMeet self p acpptn msg t
    | none => s.acpWait self p acpptn msg tmout

/-- The rendezvous that `rdvno` names is not under way. -/
def notRdv (rdvno : BitVec 32) (cal : PorTcb) : Prop :=
  cal.waiting = false ∨ cal.wspec ≠ .rdv ∨ rdvno ≠ cal.winfo.word

instance instDecidableNotRdv (rdvno : BitVec 32) (cal : PorTcb) : Decidable (notRdv rdvno cal) :=
  inferInstanceAs (Decidable (_ ∨ _ ∨ _))

/-- Check call wait disable of the task whose rendezvous is forwarded: it ends with an error. -/
def fwdDiswai (cal : Tsk) : PorResult :=
  let r := s.waitReleaseNg cal E_DISWAI
  (r.1, r.2, some E_DISWAI)

/-- The forward finds the task `t`, which waits to accept. -/
def fwdMeet (p : ℕ) (calptn rdvno : BitVec 32) (msg : ℕ) (cmsgsz : ℤ) (cal t : Tsk) : PorResult :=
  if s.isDiswai p cal TTW_CAL then s.fwdDiswai cal
  else
    let forwards := PorEvent.forwards rdvno cal p calptn cmsgsz
    let newRdvno := (s.genRdvno cal).1
    let s' := s.sendMessage cal t msg cmsgsz
    let accepts := PorEvent.accepts t (s.tcb t).winfo.word cal p calptn newRdvno cmsgsz
    if s.isDiswai p cal TTW_RDV then
      let r := s'.waitReleaseNg cal E_DISWAI
      (r.1, forwards :: accepts :: r.2, some E_DISWAI)
    else
      -- change rendezvous end wait of the other task
      (s'.setTcb cal { s'.tcb cal with
        winfo := ⟨newRdvno, (s'.tcb cal).winfo.msg, (s.porcb p).maxrmsz⟩
        nodiswai := (s.porcb p).poratr &&& TA_NODISWAI ≠ 0 }, [forwards, accepts], some E_OK)

/-- Change the other task to rendezvous call wait. -/
def fwdWait (p : ℕ) (calptn rdvno : BitVec 32) (msg : ℕ) (cmsgsz : ℤ) (cal : Tsk) : PorResult :=
  if s.isDiswai p cal TTW_CAL then s.fwdDiswai cal
  else
    let s' := s.setTcb cal { s.tcb cal with
      wspec := s.wspecCal p
      wid := p
      winfo := ⟨calptn, (s.tcb cal).winfo.msg, cmsgsz⟩
      nodiswai := (s.porcb p).poratr &&& TA_NODISWAI ≠ 0
      timed := false }
    ((s'.callInsert p cal).memcpy (s.tcb cal).winfo.msg msg cmsgsz,
      [.forwards rdvno cal p calptn cmsgsz], some E_OK)

/-- `protFwd` is the result of `mp_check_protection_fwd`. -/
def tkFwdPor (maxTskid maxDomid p : ℕ) (idOk indp : Bool) (prot protFwd : ER)
    (calptn rdvno : BitVec 32) (msg : ℕ) (cmsgsz : ℤ) : PorResult :=
  if !idOk then (s, [], some E_ID)
  else if calptn = 0 then (s, [], some E_PAR)
  else if !checkRdvno maxTskid maxDomid rdvno then (s, [], some E_OBJ)
  else if ¬cmsgsz ≥ 0 then (s, [], some E_PAR)
  else if indp then (s, [], some E_CTX)
  else
    let cal := indexTsk (getTskidRdvno rdvno)
    if (s.porcb p).porid = 0 then (s, [], some E_NOEXS)
    else if prot ≠ E_OK then (s, [], some prot)
    else if protFwd ≠ E_OK then (s, [], some protFwd)
    else if cmsgsz > (s.porcb p).maxcmsz then (s, [], some E_PAR)
    else if notRdv rdvno (s.tcb cal) then (s, [], some E_OBJ)
    else if (s.porcb p).maxrmsz > (s.tcb cal).winfo.size then (s, [], some E_OBJ)
    else if cmsgsz > (s.tcb cal).winfo.size then (s, [], some E_PAR)
    else
      match s.searchPtn calptn (s.porcb p).accept_queue with
      | some t => s.fwdMeet p calptn rdvno msg cmsgsz cal t
      | none => s.fwdWait p calptn rdvno msg cmsgsz cal

def tkRplRdv (maxTskid maxDomid : ℕ) (indp : Bool) (rdvno : BitVec 32) (msg : ℕ) (rmsgsz : ℤ) :
    PorResult :=
  if !checkRdvno maxTskid maxDomid rdvno then (s, [], some E_OBJ)
  else if ¬rmsgsz ≥ 0 then (s, [], some E_PAR)
  else if indp then (s, [], some E_CTX)
  else
    let cal := indexTsk (getTskidRdvno rdvno)
    if notRdv rdvno (s.tcb cal) then (s, [], some E_OBJ)
    else if rmsgsz > (s.tcb cal).winfo.size then (s, [], some E_PAR)
    else
      ((s.memcpy (s.tcb cal).winfo.msg msg rmsgsz).waitRelease cal, [.replies rdvno cal rmsgsz],
        some E_OK)

/-! ## What else ends a wait -/

/-- `wait_release_tmout`, which the timer calls after it has taken `wtmeb` off its queue. -/
def waitReleaseTmout (t : Tsk) : PorState × List PorEvent := s.waitReleaseNg t E_TMOUT

def tkRelWai (t : Tsk) (idOk : Bool) (prot : ER) : PorResult :=
  if !idOk then (s, [], some E_ID)
  else if (s.tcb t).state = .nonexist then (s, [], some E_NOEXS)
  else if prot ≠ E_OK then (s, [], some prot)
  else if !(s.tcb t).waiting then (s, [], some E_OBJ)
  else
    let r := s.waitReleaseNg t E_RLWAI
    (r.1, r.2, some E_OK)

/-- `parOk` is the check of the mask. -/
def tkDisWai (t : Tsk) (waitmask : ℕ) (idOk parOk : Bool) (prot : ER) : PorResult :=
  if !idOk then (s, [], some E_ID)
  else if !parOk then (s, [], some E_PAR)
  else if (s.tcb t).state = .nonexist then (s, [], some E_NOEXS)
  else if prot ≠ E_OK then (s, [], some prot)
  else
    let s' := s.setTcb t { s.tcb t with waitmask := waitmask }
    if !(s.tcb t).waiting then (s', [], some 0)
    else if (s.tcb t).wspec.tskwait &&& waitmask ≠ 0 ∧ !(s.tcb t).nodiswai then
      let r := s'.waitReleaseNg t E_DISWAI
      (r.1, r.2, some 0)
    else (s', [], some (s.tcb t).wspec.tskwait)

def tkEnaWai (t : Tsk) (idOk : Bool) (prot : ER) : PorResult :=
  if !idOk then (s, [], some E_ID)
  else if (s.tcb t).state = .nonexist then (s, [], some E_NOEXS)
  else if prot ≠ E_OK then (s, [], some prot)
  else (s.setTcb t { s.tcb t with waitmask := 0 }, [], some E_OK)

/-- `_ter_tsk` and `make_dormant`. -/
def endTask (t : Tsk) : PorState × List PorEvent :=
  let s' :=
    if (s.tcb t).waiting then (s.queRemove t).setTcb t { s.tcb t with timed := false } else s
  (s'.setTcb t { s'.tcb t with state := .dormant, waitmask := 0, nodiswai := false },
    if (s.tcb t).waiting then s.endEvents t none else [])

/-- `change_task_priority`. -/
def changeTaskPriority (t : Tsk) (priority : ℕ) : PorState :=
  let s' := s.setTcb t { s.tcb t with priority := priority }
  if (s.tcb t).waiting ∧ (s.tcb t).wspec = .calTpri then
    let porcb := s.porcb (s.tcb t).wid
    -- cal_chg_pri
    s'.setPorcb (s.tcb t).wid { porcb with
      call_queue := gcbChangePriority (fun u => (s'.tcb u).priority) t porcb.call_queue }
  else s'

end PorState

end SmpTKernel
