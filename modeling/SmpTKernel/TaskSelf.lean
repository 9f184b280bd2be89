import SmpTKernel.ExtendedSvc
import SmpTKernel.KernelCalls
import SmpTKernel.ObjectName

/-!
# The calls that take `TSK_SELF`

Each checks the number, that the task exists and that the caller may get at it, and each does so in
its own words; `TSK_SELF` is to be as good as the number of the caller. The parts of the control
block are those of the models of the domains, the waits and the task exceptions, and `TaskInf` is
the rest of what these calls look at. The copy of `waitmask` in `TexBlock` is not used here.
-/

namespace SmpTKernel

abbrev TPRI_INI : ℤ := 0
abbrev MIN_PRI : ℤ := 1
abbrev MAX_PRI : ℤ := 140
abbrev TA_RNG0 : ℕ := 0
abbrev TTS_RUN : ℕ := 0x00000001
abbrev TTS_NODISWAI : ℕ := 0x00000080
abbrev WAIT_PATTERN : ℕ := 0x80ff7fcf

/-- `(UINT)state`. -/
def TaskState.code : TaskState → ℕ
  | nonexist => 0
  | ready => 1
  | wait => 2
  | suspend => 4
  | waitsus => 6
  | dormant => 8

structure TaskInf where
  exinf : ℕ
  task : ℕ
  resid : ID
  stksz : ℤ
  sstksz : ℤ
  reqdct : Bool
  isysmode : ℤ
  slicetime : ℕ
  stime : ℕ
  utime : ℕ
  istack : ℕ
  isstack : ℕ
  uatb : ℕ
  lsid : ℤ
  oname : List UB
  tex : TexBlock

/-- The kernel, as far as these calls see it. -/
structure TaskSys where
  dom : DomState
  kern : Kern
  inf : Tsk → TaskInf
  /-- By processor. -/
  ctxtsk : ℕ → Option Tsk
  /-- The space `change_space` selected, by processor. -/
  space : ℕ → ℕ × ℤ

/-- Who calls: the running task, on which processor, and in which part of the system. -/
structure TaskCtx where
  tsk : Tsk
  prid : ℕ
  indp : Bool
  ddsp : Bool
  hook : Hook

/-- The calling task waits in `LockSVC` and runs user code in `call_brkhdr`; both are parameters.
While it waits its control block is its own. -/
structure SvcPart where
  /-- The state when the first task has the lock of the second. -/
  lockSVC : Tsk → Tsk → TaskSys → TaskSys
  /-- The end of `_tk_ras_tex`, when `rastex` is set or not. -/
  brkUnlock : Tsk → Tsk → Bool → TaskSys → TaskSys
  lock_id : ∀ t tcb s, ((lockSVC t tcb s).dom.cb (.tsk, t)).id = (s.dom.cb (.tsk, t)).id

structure T_RTSK where
  exinf : ℕ
  tskpri : ℤ
  tskbpri : ℤ
  tskstat : ℕ
  tskwait : ℕ
  wid : ID
  wupcnt : ℤ
  suscnt : ℤ
  slicetime : ℕ
  waitmask : ℕ
  texmask : BitVec 32
  tskevent : ℕ

/-- `TD_RTSK` begins like `T_RTSK`. -/
structure TD_RTSK extends T_RTSK where
  task : ℕ
  stksz : ℤ
  sstksz : ℤ
  istack : ℕ
  isstack : ℕ

/-- After `memset`. -/
def T_RTSK.zero : T_RTSK := ⟨0, 0, 0, 0, 0, 0, 0, 0, 0, 0, 0, 0⟩

structure T_DMI where
  domatr : ℕ
  domid : ID
  kdmid : ID
  oname : List UB

/-- What the call writes to the packet of the caller. -/
inductive SelfPacket
  | none
  | rtsk (pk : T_RTSK)
  | tdRtsk (pk : TD_RTSK)
  | itsk (stime utime : ℕ)
  | tskspc (uatb : ℕ) (lsid : ℤ)
  | rtex (pendtex texmask : BitVec 32)
  | dmi (pk : T_DMI)

/-- The state, the value the call returns (`none` if it does not return) and the packet. -/
abbrev TaskRes := TaskSys × Option ℤ × SelfPacket

namespace TaskSys

variable (cfg : DomCfg) (s : TaskSys) (c : TaskCtx)

def updInf (t : Tsk) (f : TaskInf → TaskInf) : TaskSys :=
  { s with inf := Function.update s.inf t (f (s.inf t)) }

/-- The task control block as an object. -/
def obj (t : Tsk) : ObjCb := s.dom.cb (.tsk, t)

/-- The caller, as the checks of the domains see it: they go through all domains if need be. -/
def caller : Caller := ⟨c.indp, c.tsk, cfg.num .dom⟩

def getTcbSelf (tskid : ID) : Tsk := if tskid = TSK_SELF then c.tsk else INDEX .tsk tskid

def isCtxtsk (numProc : ℕ) (t : Tsk) : Bool := (List.range numProc).any fun i => s.ctxtsk i = some t

/-! ## The checks -/

def chkTskidSelf (tskid : ID) : Bool := (!c.indp && tskid = TSK_SELF) || cfg.chkId .tsk tskid

/-- Check domain and protection, `none` if the check goes on. -/
def mpCheck (argid objid : ID) (objatr : ℕ) : Option ER :=
  mpCheckDomainAndProtection cfg s.dom (caller cfg c) argid objid objatr

/-- `mp_check_domain_and_protection_tsk`. -/
def mpCheckTsk (argid objid : ID) (objatr : ℕ) : Option ER :=
  if argid = TSK_SELF then some E_OK else s.mpCheck cfg c argid objid objatr

/-- The debugger support calls compare the domain ID parts only. -/
def tdCheck (argid objid : ID) (_objatr : ℕ) : Option ER :=
  some (if argid ≠ TSK_SELF ∧ !MP_CMP_DOMIDPART argid objid then E_NOEXS else E_OK)

/-- The critical section of a call on the task `t` named by `tskid` begins with these checks. -/
def checkTask (tskid : ID) (t : Tsk) (check : ID → ID → ℕ → Option ER) (pk : SelfPacket)
    (call : TaskRes) : TaskRes :=
  if (s.kern.tcb t).state = .nonexist then (s, some E_NOEXS, pk)
  else
    match check tskid (s.obj t).id (s.obj t).atr with
    | none => (s, none, pk)
    | some ercd => if ercd ≠ E_OK then (s, some ercd, pk) else call

/-- The checks of the parameters, in the order of the source, and those of `checkTask`. -/
def onTaskSelf (tskid : ID) (par : ER) (check : ID → ID → ℕ → Option ER) (pk : SelfPacket)
    (call : Tsk → TaskRes) : TaskRes :=
  if !chkTskidSelf cfg c tskid then (s, some E_ID, .none)
  else if par ≠ E_OK then (s, some par, .none)
  else
    let t := getTcbSelf c tskid
    s.checkTask tskid t check pk (call t)

/-- What the call on the waits and priorities of the task did and returned. -/
def ofKern (r : Kern × Option ER) : TaskRes := ({ s with kern := r.1 }, r.2, .none)

/-! ## `task_manage.c` -/

def tkChgPri (tskid : ID) (tskpri : ℤ) : TaskRes :=
  s.onTaskSelf cfg c tskid
    (if tskpri ≠ TPRI_INI ∧ ¬(MIN_PRI ≤ tskpri ∧ tskpri ≤ MAX_PRI) then E_PAR else E_OK)
    (s.mpCheckTsk cfg c) .none fun t =>
      s.ofKern (s.kern.chgPri t c.hook
        (if tskpri = TPRI_INI then none else some (tskpri - MIN_PRI).toNat) E_OK)

def tkChgSlt (tskid : ID) (slicetime : ℕ) : TaskRes :=
  s.onTaskSelf cfg c tskid E_OK (s.mpCheckTsk cfg c) .none fun t =>
    (s.updInf t fun i => { i with slicetime := slicetime }, some E_OK, .none)

/-- What `tk_ref_tsk` and `td_ref_tsk` tell. -/
def rtsk (numProc : ℕ) (t : Tsk) : T_RTSK :=
  let tcb := s.kern.tcb t
  let inf := s.inf t
  let wait := tcb.state.isWait
  { exinf := inf.exinf
    tskpri := tcb.priority + MIN_PRI
    tskbpri := tcb.bpriority + MIN_PRI
    tskstat :=
      (if tcb.state = .ready ∧ s.isCtxtsk numProc t then TTS_RUN else tcb.state.code <<< 1) |||
        (if wait ∧ tcb.nodiswai then TTS_NODISWAI else 0)
    tskwait := if wait then tcb.wspec.tskwait else 0
    wid := if wait then tcb.wid else 0
    wupcnt := tcb.wupcnt
    suscnt := tcb.suscnt
    slicetime := inf.slicetime
    waitmask := tcb.waitmask
    texmask := inf.tex.texmask
    tskevent := tcb.tskevt }

def tkRefTsk (numProc : ℕ) (tskid : ID) : TaskRes :=
  s.onTaskSelf cfg c tskid E_OK (s.mpCheckTsk cfg c) (.rtsk .zero) fun t =>
    (s, some E_OK, .rtsk (s.rtsk numProc t))

/-- `stime` and `utime`, cleared with `clr`. -/
def itsk (clr : Bool) (t : Tsk) : TaskRes :=
  (if clr then s.updInf t fun i => { i with stime := 0, utime := 0 } else s, some E_OK,
    .itsk (s.inf t).stime (s.inf t).utime)

def tkInfTsk (tskid : ID) (clr : Bool) : TaskRes :=
  s.onTaskSelf cfg c tskid E_OK (s.mpCheckTsk cfg c) .none (s.itsk clr)

def tkGetRid (tskid : ID) : TaskRes :=
  s.onTaskSelf cfg c tskid E_OK (s.mpCheckTsk cfg c) .none fun t =>
    (s, some ((s.inf t).resid : ℤ), .none)

def tkSetRid (maxResid : ℕ) (tskid : ID) (resid : ID) : TaskRes :=
  s.onTaskSelf cfg c tskid (if 1 ≤ resid ∧ resid ≤ maxResid then E_OK else E_ID)
    (s.mpCheckTsk cfg c) .none fun t =>
    (s.updInf t fun i => { i with resid := resid }, some ((s.inf t).resid : ℤ), .none)

def tkDisWai (tskid : ID) (waitmask : ℕ) : TaskRes :=
  s.onTaskSelf cfg c tskid
    (if waitmask &&& WAIT_PATTERN = waitmask ∧ waitmask &&& WAIT_PATTERN ≠ 0 then E_OK else E_PAR)
    (s.mpCheckTsk cfg c) .none fun t => s.ofKern (s.kern.disWai t c.hook waitmask E_OK)

def tkEnaWai (tskid : ID) : TaskRes :=
  s.onTaskSelf cfg c tskid E_OK (s.mpCheckTsk cfg c) .none fun t => s.ofKern (s.kern.enaWai t E_OK)

/-- `tk_dmi_tsk` and `td_dmi_tsk`. -/
def dmi (t : Tsk) : T_DMI where
  domatr := (s.obj t).atr &&& (TA_ONAME ||| TA_PRIVATE ||| TA_PROTECTED ||| TA_PUBLIC)
  domid := mpGetDomidFromId s.dom (s.obj t).id
  kdmid := MP_KDMID_SELF
  oname := (s.inf t).oname

def tkDmiTsk (tskid : ID) : TaskRes :=
  s.onTaskSelf cfg c tskid E_OK (s.mpCheckTsk cfg c) .none fun t => (s, some E_OK, .dmi (s.dmi t))

/-! ## `task_sync.c` -/

/-- The check here is not the one for tasks. -/
def tkCanWup (tskid : ID) : TaskRes :=
  s.onTaskSelf cfg c tskid E_OK (s.mpCheck cfg c) .none fun t => s.ofKern (s.kern.canWup t E_OK)

def tkSigTev (tskid : ID) (tskevt : ℤ) : TaskRes :=
  s.onTaskSelf cfg c tskid (if 1 ≤ tskevt ∧ tskevt ≤ 8 then E_OK else E_PAR)
    (fun argid objid objatr =>
      if argid ≠ TSK_SELF then s.mpCheck cfg c argid objid objatr else some E_OK) .none
    fun t => s.ofKern (s.kern.sigTev t tskevt.toNat E_OK)

/-! ## `cpu_calls.c` -/

def tkGetTsp (tskid : ID) : TaskRes :=
  s.onTaskSelf cfg c tskid E_OK (s.mpCheckTsk cfg c) .none fun t =>
    (s, some E_OK, .tskspc (s.inf t).uatb (s.inf t).lsid)

def tkSetTsp (numProc : ℕ) (tskid : ID) (uatb : ℕ) (lsid : ℤ) : TaskRes :=
  s.onTaskSelf cfg c tskid E_OK (s.mpCheckTsk cfg c) .none fun t =>
    -- the task runs on another processor
    if (List.range numProc).any fun i => i ≠ c.prid ∧ s.ctxtsk i = some t then
      (s, some E_OBJ, .none)
    else
      let s := s.updInf t fun i => { i with uatb := uatb, lsid := lsid }
      (if s.ctxtsk c.prid = some t then
        { s with space := Function.update s.space c.prid (uatb, lsid) } else s, some E_OK, .none)

/-! ## Task exceptions, in `subsystem.c` -/

/-- `tk_def_tex`; `texhdr` when the packet defines a handler. -/
def tkDefTex (tskid : ID) (texatrOk texhdr : Bool) : TaskRes :=
  s.onTaskSelf cfg c tskid (if texatrOk then E_OK else E_RSATR) (s.mpCheckTsk cfg c) .none fun t =>
    if (s.obj t).atr &&& TA_RNG3 = TA_RNG0 then (s, some E_OBJ, .none)
    else
      (s.updInf t fun i =>
        { i with tex := { i.tex with pendtex := 0, exectex := 0, texmask := 0, texhdr := texhdr } },
        some E_OK, .none)

def setTexMask (tskid : ID) (texmsk : BitVec 32) (enable : Bool) : TaskRes :=
  s.onTaskSelf cfg c tskid E_OK (s.mpCheckTsk cfg c) .none fun t =>
    let tex := (s.inf t).tex
    let texmask :=
      if !tex.texhdr then tex.texmask
      else if enable then tex.texmask ||| texmsk else tex.texmask &&& ~~~texmsk
    (s.updInf t fun i =>
      { i with tex := { tex with texmask := texmask, pendtex := tex.pendtex &&& texmask } },
      some (if tex.texhdr then E_OK else E_NOEXS), .none)

def tkDisTex (tskid : ID) (texptn : BitVec 32) : TaskRes := s.setTexMask cfg c tskid texptn false

def tkEnaTex (tskid : ID) (texptn : BitVec 32) : TaskRes := s.setTexMask cfg c tskid texptn true

/-- The critical section of `_tk_ras_tex`: `rastex`, the error code, or neither if the check goes
on. -/
def rasCritical (tskid : ID) (t : Tsk) (texcd : ℤ) : TaskSys × Option (ER × Bool) :=
  let state := (s.kern.tcb t).state
  let prot :=
    if state = .nonexist then some E_OK else s.mpCheckTsk cfg c tskid (s.obj t).id (s.obj t).atr
  match prot with
  | none => (s, none)
  | some prot =>
    let r := (s.inf t).tex.raise state prot texcd
    (s.updInf t fun i => { i with tex := r.2, reqdct := i.reqdct || (r.1.2 && i.isysmode = 0) },
      some r.1)

def tkRasTex (p : SvcPart) (tskid : ID) (texcd : ℤ) : TaskRes :=
  if c.indp then (s, some E_CTX, .none)
  else if !chkTskidSelf cfg c tskid then (s, some E_ID, .none)
  else if ¬(0 ≤ texcd ∧ texcd ≤ 31) then (s, some E_PAR, .none)
  else if c.ddsp then (s, some E_CTX, .none)
  else
    let t := getTcbSelf c tskid
    match (p.lockSVC c.tsk t s).rasCritical cfg c tskid t texcd with
    | (s, none) => (s, none, .none)
    | (s, some (ercd, rastex)) => (p.brkUnlock c.tsk t rastex s, some ercd, .none)

def rtex (t : Tsk) : TaskRes := (s, some E_OK, .rtex (s.inf t).tex.pendtex (s.inf t).tex.texmask)

def tkRefTex (tskid : ID) : TaskRes :=
  s.onTaskSelf cfg c tskid E_OK (s.mpCheckTsk cfg c) .none s.rtex

/-! ## Debugger support -/

/-- `RESERVE_SSTACK` depends on the processor. -/
def tdRefTsk (numProc : ℕ) (reserveSstack : ℕ → ℤ) (tskid : ID) : TaskRes :=
  s.onTaskSelf cfg c tskid E_OK tdCheck (.tdRtsk ⟨.zero, 0, 0, 0, 0, 0⟩) fun t =>
    let inf := s.inf t
    (s, some E_OK, .tdRtsk ⟨s.rtsk numProc t, inf.task, inf.stksz,
      inf.sstksz - reserveSstack (s.obj t).atr, inf.istack, inf.isstack⟩)

def tdInfTsk (tskid : ID) (clr : Bool) : TaskRes :=
  s.onTaskSelf cfg c tskid E_OK tdCheck .none (s.itsk clr)

def tdDmiTsk (tskid : ID) : TaskRes :=
  s.onTaskSelf cfg c tskid E_OK tdCheck .none fun t => (s, some E_OK, .dmi (s.dmi t))

def tdRefTex (tskid : ID) : TaskRes := s.onTaskSelf cfg c tskid E_OK tdCheck .none s.rtex

end TaskSys

/-- What the calls find outside the control blocks. -/
structure SelfEnv where
  cfg : DomCfg
  numProc : ℕ
  maxResid : ℕ
  reserveSstack : ℕ → ℤ
  svc : SvcPart

/-- The calls, but for the number of the task. -/
inductive SelfCall
  | canWup
  | chgPri (tskpri : ℤ)
  | chgSlt (slicetime : ℕ)
  | refTsk
  | infTsk (clr : Bool)
  | getRid
  | setRid (resid : ID)
  | disWai (waitmask : ℕ)
  | enaWai
  | dmiTsk
  | sigTev (tskevt : ℤ)
  | getTsp
  | setTsp (uatb : ℕ) (lsid : ℤ)
  | defTex (texatrOk texhdr : Bool)
  | disTex (texptn : BitVec 32)
  | enaTex (texptn : BitVec 32)
  | rasTex (texcd : ℤ)
  | refTex
  | tdRefTsk
  | tdInfTsk (clr : Bool)
  | tdDmiTsk
  | tdRefTex

def SelfCall.exec (e : SelfEnv) (s : TaskSys) (c : TaskCtx) (tskid : ID) : SelfCall → TaskRes
  | canWup => s.tkCanWup e.cfg c tskid
  | chgPri tskpri => s.tkChgPri e.cfg c tskid tskpri
  | chgSlt slicetime => s.tkChgSlt e.cfg c tskid slicetime
  | refTsk => s.tkRefTsk e.cfg c e.numProc tskid
  | infTsk clr => s.tkInfTsk e.cfg c tskid clr
  | getRid => s.tkGetRid e.cfg c tskid
  | setRid resid => s.tkSetRid e.cfg c e.maxResid tskid resid
  | disWai waitmask => s.tkDisWai e.cfg c tskid waitmask
  | enaWai => s.tkEnaWai e.cfg c tskid
  | dmiTsk => s.tkDmiTsk e.cfg c tskid
  | sigTev tskevt => s.tkSigTev e.cfg c tskid tskevt
  | getTsp => s.tkGetTsp e.cfg c tskid
  | setTsp uatb lsid => s.tkSetTsp e.cfg c e.numProc tskid uatb lsid
  | defTex texatrOk texhdr => s.tkDefTex e.cfg c tskid texatrOk texhdr
  | disTex texptn => s.tkDisTex e.cfg c tskid texptn
  | enaTex texptn => s.tkEnaTex e.cfg c tskid texptn
  | rasTex texcd => s.tkRasTex e.cfg c e.svc tskid texcd
  | refTex => s.tkRefTex e.cfg c tskid
  | tdRefTsk => s.tdRefTsk e.cfg c e.numProc e.reserveSstack tskid
  | tdInfTsk clr => s.tdInfTsk e.cfg c tskid clr
  | tdDmiTsk => s.tdDmiTsk e.cfg c tskid
  | tdRefTex => s.tdRefTex e.cfg c tskid

end SmpTKernel
