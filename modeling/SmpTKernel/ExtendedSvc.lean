import SmpTKernel.SvcLock

/-!
# Extended SVCs and task exceptions

`svc_ientry`, `call_brkhdr` and `_tk_ras_tex` of `subsystem.c`, which call user code between their
critical sections. Every task has a stack of calls that have not returned, each at the place where
it goes on; one step is one critical section, one turn of `LockSVC`, one `UnlockSVC` or one test in
between. The priority that a break function runs with is left out, and so are calls from the
task-independent part, which take no lock.
-/

namespace SmpTKernel

abbrev E_RSFN : ER := -10

/-- Extended SVC call disable. -/
abbrev TTX_SVC : BitVec 32 := 0x80000000

/-- Task exception code '0' handler is in execution. -/
abbrev TEX0_RUNNING : BitVec 16 := 0x0001
/-- Task exception code '1-31' handler is in execution. -/
abbrev TEX1_RUNNING : BitVec 16 := 0x0002
/-- Subsystem function is in execution. -/
abbrev SSFN_RUNNING : BitVec 16 := 0x0004
/-- The MSB of `execssid`. -/
abbrev BREAK_RAN : BitVec 16 := 0x8000

/-- What a task control block has about extended SVCs and task exceptions. -/
structure TexBlock where
  /-- Quasi task part call level. -/
  sysmode : BitVec 16
  /-- Disabled wait factor. -/
  waitmask : BitVec 32
  /-- A task exception handler is defined. -/
  texhdr : Bool
  /-- Task exceptions which are enabled. -/
  texmask : BitVec 32
  /-- Task exceptions which are now suspended. -/
  pendtex : BitVec 32
  /-- Task exceptions in break processing. -/
  exectex : BitVec 32
  texflg : BitVec 16
  /-- The extended SVC in execution; it is negative once the break function has run. -/
  execssid : BitVec 16

/-- What `svc_ientry` puts aside. -/
structure SvcSave where
  execssid : BitVec 16
  waitmask : BitVec 32
  exectex : BitVec 32

/-- A call that has not returned, by what it does next. -/
inductive Frame
  /-- `svc_ientry`: `LockSVC`. -/
  | svcLock (ssid : BitVec 16)
  /-- Is the call disabled? -/
  | svcTest (ssid : BitVec 16)
  | svcRefuse
  /-- The critical section before the handler. -/
  | svcBegin (ssid : BitVec 16)
  | svcUnlock (save : SvcSave)
  /-- The handler runs. -/
  | svcHandler (save : SvcSave)
  | svcRelock (save : SvcSave) (ercd : ER)
  /-- The critical section after the handler. -/
  | svcEnd (save : SvcSave) (ercd : ER)
  | svcUnlockEnd (ercd : ER)
  /-- `_tk_ras_tex`: `LockSVC` for the lock of `tcb`. -/
  | rasLock (tcb : Tsk) (texcd : ℤ)
  | rasRaise (tcb : Tsk) (texcd : ℤ)
  | rasUnlock (tcb : Tsk) (rastex : Bool) (ercd : ER)
  /-- The end of both: is there a task exception for the caller itself? -/
  | selfBreak (ercd : ER)
  /-- `call_brkhdr(tcb)`: its first critical section. -/
  | brkCall (tcb : Tsk)
  /-- The break function runs. -/
  | brkFn (texflg : BitVec 16)
  | ret (ercd : ER)

/-- The locks, the task control blocks and the calls under way, latest first. -/
structure ExtSvc where
  locks : SvcState
  tcb : Tsk → TexBlock
  /-- The subsystem has a break function. -/
  breakfn : BitVec 16 → Bool
  calls : Tsk → List Frame

namespace TexBlock

/-- The part of `make_dormant` about task exceptions. -/
def dormant (isysmode : BitVec 16) : TexBlock where
  sysmode := isysmode
  waitmask := 0
  texhdr := false
  texmask := 0
  pendtex := 0
  exectex := 0
  texflg := 0
  execssid := 0

variable (tcb : TexBlock)

/-- The critical section of `svc_ientry` before the handler. -/
def beginSvc (ssid : BitVec 16) : SvcSave × TexBlock :=
  ({ execssid := tcb.execssid, waitmask := tcb.waitmask, exectex := tcb.exectex },
    { tcb with
      execssid := ssid
      waitmask := 0
      -- the break function was already called
      exectex := if tcb.execssid.toInt < 0 then 0 else tcb.exectex
      sysmode := tcb.sysmode + 1 })

/-- The critical section of `svc_ientry` after the handler. -/
def endSvc (save : SvcSave) : TexBlock :=
  { tcb with
    sysmode := tcb.sysmode - 1
    execssid := save.execssid
    waitmask := save.waitmask
    exectex := tcb.exectex ||| save.exectex }

/-- The critical section of `_tk_ras_tex`: the error code and `rastex`. -/
def raise (state : TaskState) (prot : ER) (texcd : ℤ) : (ER × Bool) × TexBlock :=
  if state = .nonexist then ((E_NOEXS, false), tcb)
  else if prot ≠ E_OK then ((prot, false), tcb)
  else if !tcb.texhdr then ((E_NOEXS, false), tcb)
  else if state = .dormant then ((E_OBJ, false), tcb)
  else if tcb.texflg &&& TEX0_RUNNING ≠ 0 then ((E_OK, false), tcb)
  else
    let tcb := { tcb with pendtex := tcb.pendtex ||| (1#32 <<< texcd.toNat &&& tcb.texmask) }
    if tcb.pendtex = 0 then ((E_OK, false), tcb)
    else if tcb.pendtex &&& 1 ≠ 0 ∨ tcb.texflg &&& TEX1_RUNNING = 0 then
      ((E_OK, true), { tcb with exectex := tcb.exectex ||| tcb.pendtex })
    else ((E_OK, false), tcb)

end TexBlock

namespace ExtSvc

variable (s : ExtSvc)

/-- The start of the system. -/
def start (locklist : Lock → Option Lock) (tcb : Tsk → TexBlock) : ExtSvc where
  locks := SvcState.taskInitialize locklist
  tcb := tcb
  breakfn _ := false
  calls _ := []

def setCalls (t : Tsk) (calls : List Frame) : ExtSvc :=
  { s with calls := Function.update s.calls t calls }

def setTcb (t : Tsk) (tcb : TexBlock) : ExtSvc := { s with tcb := Function.update s.tcb t tcb }

/-! ## The entries -/

/-- `svc_ientry`, up to `LockSVC`. -/
def svcIentry (maxSsyid : ℕ) (fncd : BitVec 32) : Frame :=
  -- lower 8 bits are subsystem ID
  let ssid := fncd &&& 0xff
  if ssid.toNat < 1 ∨ maxSsyid < ssid.toNat then .ret E_RSFN
  else .svcLock (ssid.setWidth 16)

/-- `_tk_ras_tex` for `tcb`, up to `LockSVC`; `idOk` is the check of the identifier. -/
def tkRasTex (idOk ddsp : Bool) (tcb : Tsk) (texcd : ℤ) : Frame :=
  if !idOk then .ret E_ID
  else if ¬(0 ≤ texcd ∧ texcd ≤ 31) then .ret E_PAR
  else if ddsp then .ret E_CTX
  else .rasLock tcb texcd

/-! ## Steps -/

/-- A turn of `LockSVC`: the task goes on at `next` when it has the lock. -/
def lockThen (prid : ℕ) (t : Tsk) (loc : Lock) (next : List Frame) : Option ExtSvc :=
  (s.locks.lockSvc prid loc).map fun r =>
    { s with
      locks := r.2
      calls := Function.update s.calls t (if r.1 then next else s.calls t) }

def unlockThen (prid : ℕ) (t : Tsk) (next : List Frame) : Option ExtSvc :=
  (s.locks.unlockSvc prid).map fun locks =>
    { s with locks := locks, calls := Function.update s.calls t next }

/-- The first critical section of `call_brkhdr`, with the `texflg` of the caller put aside if the
break function is called. -/
def callBrkhdr (t tcb : Tsk) : Option (BitVec 16) × ExtSvc :=
  if (s.tcb tcb).texflg &&& SSFN_RUNNING ≠ 0 then (none, s)
  else if ¬((s.tcb tcb).exectex ≠ 0 ∧ (s.tcb tcb).execssid.toInt > 0) then (none, s)
  else
    let ssid := (s.tcb tcb).execssid
    -- executed mark: disable multiple call
    let s := s.setTcb tcb { s.tcb tcb with execssid := ssid ||| BREAK_RAN }
    if !s.breakfn ssid then (none, s)
    else
      (some (s.tcb t).texflg, s.setTcb t { s.tcb t with
        texflg := (s.tcb t).texflg ||| SSFN_RUNNING
        sysmode := (s.tcb t).sysmode + 1 })

/-- What the call that runs does next; `prot` is the result of the check of domain and protection.
Where user code runs the task goes on by itself. -/
def step (prid : ℕ) (prot : ER) (t : Tsk) : Option ExtSvc :=
  match s.calls t with
  | .svcLock ssid :: rest => s.lockThen prid t t (.svcTest ssid :: rest)
  | .svcTest ssid :: rest =>
    some (s.setCalls t
      ((if (s.tcb t).waitmask &&& TTX_SVC ≠ 0 then .svcRefuse else .svcBegin ssid) :: rest))
  | .svcRefuse :: rest => s.unlockThen prid t (.ret E_DISWAI :: rest)
  | .svcBegin ssid :: rest =>
    some ((s.setTcb t ((s.tcb t).beginSvc ssid).2).setCalls t
      (.svcUnlock ((s.tcb t).beginSvc ssid).1 :: rest))
  | .svcUnlock save :: rest => s.unlockThen prid t (.svcHandler save :: rest)
  | .svcRelock save ercd :: rest => s.lockThen prid t t (.svcEnd save ercd :: rest)
  | .svcEnd save ercd :: rest =>
    some ((s.setTcb t ((s.tcb t).endSvc save)).setCalls t (.svcUnlockEnd ercd :: rest))
  | .svcUnlockEnd ercd :: rest => s.unlockThen prid t (.selfBreak ercd :: rest)
  | .rasLock tcb texcd :: rest => s.lockThen prid t tcb (.rasRaise tcb texcd :: rest)
  | .rasRaise tcb texcd :: rest =>
    let r := (s.tcb tcb).raise (s.locks.state tcb) prot texcd
    some ((s.setTcb tcb r.2).setCalls t
      (if r.1.2 then .brkCall tcb :: .rasUnlock tcb true r.1.1 :: rest
      else .rasUnlock tcb false r.1.1 :: rest))
  | .rasUnlock _ rastex ercd :: rest =>
    s.unlockThen prid t ((if rastex then .selfBreak ercd else .ret ercd) :: rest)
  | .selfBreak ercd :: rest =>
    some (s.setCalls t
      (if (s.tcb t).exectex ≠ 0 then .brkCall t :: .ret ercd :: rest else .ret ercd :: rest))
  | .brkCall tcb :: rest =>
    some (match s.callBrkhdr t tcb with
      | (none, s) => s.setCalls t rest
      | (some save, s) => s.setCalls t (.brkFn save :: rest))
  | .ret _ :: rest => some (s.setCalls t rest)
  | .svcHandler _ :: _ | .brkFn _ :: _ | [] => none

/-- The user code that runs returns. After a break function this includes the last critical section
of `call_brkhdr`. -/
def finish (t : Tsk) (ercd : ER) : Option ExtSvc :=
  match s.calls t with
  | .svcHandler save :: rest => some (s.setCalls t (.svcRelock save ercd :: rest))
  | .brkFn save :: rest =>
    some ((s.setTcb t { s.tcb t with sysmode := (s.tcb t).sysmode - 1, texflg := save }).setCalls t
      rest)
  | _ => none

end ExtSvc

end SmpTKernel
