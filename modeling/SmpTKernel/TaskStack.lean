import SmpTKernel.Handler
import SmpTKernel.Imalloc
import SmpTKernel.ObjectLife
import SmpTKernel.ResourceGroup
import SmpTKernel.TaskSelf

/-!
# The stacks of a task

`tk_cre_tsk` computes the sizes of the stacks in signed arithmetic and allocates the areas before
its critical section. The control block keeps the sizes and the stack pointers, and `_del_tsk` gets
the addresses of the areas back from these. Other calls run between the critical sections of these
two, among them those of `imalloc`. What else the critical section of `tk_cre_tsk` does shows in the
value it returns only.
-/

namespace SmpTKernel

abbrev E_NOCOP : ER := -6

abbrev MIN_SYS_STACK_SIZE : ℤ := 1024
abbrev MAX_LSID : ℤ := 255

abbrev TA_HLNG : ℕ := 0x00000001
abbrev TA_SSTKSZ : ℕ := 0x00000002
abbrev TA_USERSTACK : ℕ := 0x00000004
abbrev TA_TASKSPACE : ℕ := 0x00000008
abbrev TA_RESID : ℕ := 0x00000010
abbrev TA_FPU : ℕ := 0
abbrev TA_COPS : ℕ := 0x0000f000
abbrev TA_GP : ℕ := 0
abbrev TA_DOMID : ℕ := 0x00010000

/-- Valid value of task attribute. -/
def VALID_TSKATR : ℕ :=
  TA_HLNG ||| TA_SSTKSZ ||| TA_USERSTACK ||| TA_TASKSPACE ||| TA_RESID ||| TA_RNG3 ||| TA_FPU |||
    TA_COPS ||| TA_GP ||| TA_ASSPRC ||| TA_DOMID ||| TA_ONAME ||| TA_PRIVATE ||| TA_PROTECTED |||
    TA_PUBLIC

structure T_CTSK where
  tskatr : ℕ
  itskpri : ℤ
  stksz : BitVec 32
  sstksz : BitVec 32
  stkptr : BitVec 32
  lsid : ℤ
  resid : ID
  domid : ID
  assprc : BitVec 32

/-- The configuration, as `task_initialize` accepts it. -/
structure StackCfg where
  dom : DomCfg
  numProc : ℕ
  maxResid : ID
  availableCop : ℕ
  defaultSstksz : BitVec 32
  /-- `RESERVE_SSTACK(tskatr)`, which depends on the CPU. -/
  reserveSstack : ℕ → BitVec 32
  default_ge : MIN_SYS_STACK_SIZE ≤ defaultSstksz.toInt

/-- The members of the control block that `_del_tsk` reads. -/
structure StackTcb where
  tskatr : ℕ
  stksz : BitVec 32
  sstksz : BitVec 32
  istack : BitVec 32
  isstack : BitVec 32

/-- How far `tk_cre_tsk` has come, with the areas it has got. -/
inductive CreStage
  /-- Allocate system stack area. -/
  | sstack
  /-- `imalloc` gets pages for it. -/
  | sstackPages
  /-- Allocate user stack area. -/
  | stack (sstack : ℕ)
  | stackPages (sstack : ℕ)
  /-- Before the critical section; the user stack may be `NULL`. -/
  | enter (sstack : ℕ) (stack : Option ℕ)

/-- A call that has not returned. -/
inductive TskCall
  | creTsk (pk : T_CTSK) (stage : CreStage)
  /-- Areas to free, and what to return then. -/
  | frees (areas : List ImallocArea) (ret : Option ER)

/-- The memory of each class of attributes, the calls by caller, and the tasks. -/
structure StackSys where
  im : ℕ × ℕ → Imacb
  call : ℕ → Option TskCall
  tcb : ℕ → Option StackTcb

/-- What a step does: the new state, what happened in which memory, and the value a call returns. -/
structure StackRes where
  sys : StackSys
  imacb : ℕ × ℕ
  ev : List ImEvent
  ret : Option ER

/-! ## Sizes -/

variable (cfg : StackCfg) (pk : T_CTSK)

/-- `(pk_ctsk->tskatr & TA_RNG3) == TA_RNG0`. -/
def T_CTSK.rng0 : Bool := pk.tskatr &&& TA_RNG3 = TA_RNG0

/-- The checks before anything is allocated. -/
def creTskCheck : ER :=
  if pk.tskatr &&& (0xffffffff ^^^ VALID_TSKATR) ≠ 0 then E_RSATR
  else if ¬(MIN_PRI ≤ pk.itskpri ∧ pk.itskpri ≤ MAX_PRI) then E_PAR
  else if pk.tskatr &&& TA_COPS ≠ 0 ∧ pk.tskatr &&& cfg.availableCop = 0 then E_NOCOP
  else if pk.tskatr &&& TA_USERSTACK ≠ 0 ∧ (pk.rng0 ∨ pk.stksz ≠ 0) then E_PAR
  else if pk.tskatr &&& TA_USERSTACK = 0 ∧ pk.stksz.toInt < 0 then E_PAR
  else if pk.tskatr &&& TA_TASKSPACE ≠ 0 ∧ ¬(0 ≤ pk.lsid ∧ pk.lsid ≤ MAX_LSID) then E_PAR
  else if pk.tskatr &&& TA_ASSPRC ≠ 0 ∧
      (pk.assprc = 0 ∨ pk.assprc &&& ~~~allCoreBit cfg.numProc ≠ 0) then E_PAR
  else if MP_GET_PATR pk.tskatr ≠ TA_PUBLIC ∧ MP_GET_PATR pk.tskatr ≠ TA_PROTECTED ∧
      MP_GET_PATR pk.tskatr ≠ TA_PRIVATE then E_RSATR
  else if pk.tskatr &&& TA_DOMID ≠ 0 ∧ !cfg.dom.chkId .dom pk.domid then E_ID
  else if pk.tskatr &&& TA_RESID ≠ 0 ∧ ¬(MIN_RESID ≤ pk.resid ∧ pk.resid ≤ cfg.maxResid) then E_ID
  else if pk.tskatr &&& TA_SSTKSZ ≠ 0 ∧ pk.sstksz.toInt < MIN_SYS_STACK_SIZE then E_PAR
  else E_OK

/-- Adjust stack size by 8 bytes. -/
def adjustStack (sz : BitVec 32) : BitVec 32 := (sz + 7).sdiv 8 * 8

/-- The size of the system stack proper. -/
def sstkszArg : BitVec 32 := if pk.tskatr &&& TA_SSTKSZ ≠ 0 then pk.sstksz else cfg.defaultSstksz

/-- `sstksz`, as it is allocated. -/
def sstkszOf : BitVec 32 :=
  adjustStack (if pk.rng0 then sstkszArg cfg pk + pk.stksz else sstkszArg cfg pk)

/-- `stksz`, as it is allocated. -/
def stkszOf : BitVec 32 := adjustStack (if pk.rng0 then 0 else pk.stksz)

/-! ## Creation -/

/-- The address an `imalloc` returns with. -/
def gotPtr (ev : List ImEvent) : Option ℕ :=
  ev.findSome? fun
    | .got _ ptr => some ptr
    | _ => none

/-- The system stack is there. -/
def afterSstack (sstack : ℕ) : CreStage :=
  if 0 < (stkszOf pk).toInt then .stack sstack else .enter sstack none

/-- The areas `error_exit` frees. -/
def errorAreas (sstack : ℕ) (stack : Option ℕ) : List ImallocArea :=
  ⟨SelIMACB TA_RNG0, sstack⟩ ::
    if 0 < (stkszOf pk).toInt then [⟨SelIMACB pk.tskatr, stack.getD 0⟩] else []

/-- Initialize control block. -/
def newStackTcb (sstack : ℕ) (stack : Option ℕ) : StackTcb where
  tskatr := pk.tskatr
  stksz := stkszOf pk
  sstksz := sstkszOf cfg pk
  istack :=
    if 0 < (stkszOf pk).toInt then BitVec.ofNat 32 (stack.getD 0) + stkszOf pk else pk.stkptr
  isstack := BitVec.ofNat 32 sstack + sstkszOf cfg pk - cfg.reserveSstack pk.tskatr

/-- The areas `_del_tsk` frees. -/
def delAreas (tcb : StackTcb) : List ImallocArea :=
  ⟨SelIMACB TA_RNG0, (tcb.isstack + cfg.reserveSstack tcb.tskatr - tcb.sstksz).toNat⟩ ::
    if 0 < tcb.stksz.toInt then [⟨SelIMACB tcb.tskatr, (tcb.istack - tcb.stksz).toNat⟩] else []

namespace StackSys

variable (s : StackSys) (k t : ℕ)

def setCall (call : Option TskCall) : StackSys := { s with call := Function.update s.call k call }

/-- A step of a call without use of the memory. -/
def noHeap (ret : Option ER) : StackRes := ⟨s, (0, 0), [], ret⟩

/-- A step of a call on the memory `c`. -/
def onHeap (c : ℕ × ℕ) (r : Imacb × List ImEvent) (call : Option TskCall) (ret : Option ER) :
    StackRes :=
  ⟨{ s.setCall k call with im := Function.update s.im c r.1 }, c, r.2, ret⟩

/-- `tk_cre_tsk` is called. -/
def creTsk : StackRes :=
  if creTskCheck cfg pk ≠ E_OK then s.noHeap (some (creTskCheck cfg pk))
  else (s.setCall k (some (.creTsk pk .sstack))).noHeap none

/-- The first critical section of `IAmalloc`. -/
def malloc : StackRes :=
  match s.call k with
  | some (.creTsk pk .sstack) =>
    let r := IAmalloc (s.im (SelIMACB TA_RNG0)) (sstkszOf cfg pk).toNat
    s.onHeap k (SelIMACB TA_RNG0) r
      (some (.creTsk pk ((gotPtr r.2).elim .sstackPages (afterSstack pk)))) none
  | some (.creTsk pk (.stack sstack)) =>
    let r := IAmalloc (s.im (SelIMACB pk.tskatr)) (stkszOf pk).toNat
    s.onHeap k (SelIMACB pk.tskatr) r
      (some (.creTsk pk
        ((gotPtr r.2).elim (.stackPages sstack) fun stack => .enter sstack (some stack)))) none
  | _ => s.noHeap none

/-- The end of `IAmalloc`, when `GetSysMemBlk` has returned `q`. -/
def pages (q : Option ℕ) : StackRes :=
  match s.call k with
  | some (.creTsk pk .sstackPages) =>
    let r := imallocPages (s.im (SelIMACB TA_RNG0)) ⟨(sstkszOf cfg pk).toNat, false⟩ q
    s.onHeap k (SelIMACB TA_RNG0) r
      ((gotPtr r.2).map fun sstack => .creTsk pk (afterSstack pk sstack))
      ((gotPtr r.2).elim (some E_NOMEM) fun _ => none)
  | some (.creTsk pk (.stackPages sstack)) =>
    let r := imallocPages (s.im (SelIMACB pk.tskatr)) ⟨(stkszOf pk).toNat, false⟩ q
    s.onHeap k (SelIMACB pk.tskatr) r
      (some ((gotPtr r.2).elim (.frees [⟨SelIMACB TA_RNG0, sstack⟩] (some E_NOMEM)) fun stack =>
        .creTsk pk (.enter sstack (some stack)))) none
  | _ => s.noHeap none

/-- The critical section. Its checks yield `ercd`, which is the ID if there is no error; the control
block is the one of task `t` then. -/
def enter (ercd : ER) : StackRes :=
  match s.call k with
  | some (.creTsk pk (.enter sstack stack)) =>
    if ercd < E_OK then
      (s.setCall k (some (.frees (errorAreas pk sstack stack) (some ercd)))).noHeap none
    else
      noHeap { s.setCall k none with
        tcb := Function.update s.tcb t (some (newStackTcb cfg pk sstack stack)) }
        (some ercd)
  | _ => s.noHeap none

/-! ## Deletion -/

/-- `_del_tsk`; the control block is free when the areas are. -/
def delTsk : StackRes :=
  match s.tcb t with
  | some tcb =>
    noHeap { s.setCall k (some (.frees (delAreas cfg tcb) none)) with
      tcb := Function.update s.tcb t none } none
  | none => s.noHeap none

/-- `IAfree` for the next area. -/
def free (di : Bool) : StackRes :=
  match s.call k with
  | some (.frees (a :: areas) ret) =>
    let r := IAfree (s.im a.imacb) a.ptr di
    if areas = [] then s.onHeap k a.imacb r none ret
    else s.onHeap k a.imacb r (some (.frees areas ret)) none
  | _ => s.noHeap none

end StackSys

end SmpTKernel
