import Mathlib.Algebra.BigOperators.Group.Finset.Basic
import Mathlib.Logic.Function.Basic
import Mathlib.Logic.Relation
import SmpTKernel.Basic

/-!
# Calls between processors

With `smpc_req` a processor has a function executed by the others, which it interrupts
(`smpcall_drv.c`). A step is one access to shared memory with the instructions on local variables
that follow it, and the steps of the processors are interleaved as they come. The loops that wait
are steps that are possible when they end.
-/

namespace SmpTKernel

abbrev UW : Type := BitVec 32

/-- Number of maximum processor. -/
abbrev MAX_PROC_NUM : ℕ := 4

abbrev Prid : Type := Fin MAX_PROC_NUM

def ACP_MASK : UW := 0x0000ffff

def EXE_MASK : UW := 0xffff0000

abbrev EXE_SHIFT : ℕ := 16

def ACP_BIT (n : Prid) : UW := (1 : UW) <<< n.val

def EXE_BIT (n : Prid) : UW := (1 : UW) <<< (n.val + EXE_SHIFT)

/-- `SMPC_PINFO`; `none` is `NULL`. -/
structure SmpcPinfo (F V : Type) where
  proc_mask : UW
  status : UW
  func : Option F
  param : Option V

def init_pinfo {F V : Type} (proc_id : Prid) : SmpcPinfo F V where
  proc_mask := ~~~((1 : UW) <<< proc_id.val) &&& (((1 : UW) <<< MAX_PROC_NUM) - 1)
  status := 0
  func := none
  param := none

/-- The arguments of `smpc_req`. -/
structure SmpcReq (F V : Type) where
  func : F
  param : V
  sync : Bool
  self : Bool

/-- What a processor does next, apart from the interrupt handler. -/
inductive SmpcPc (F V : Type)
  | out
  /-- In the loop of `smpc_lock`. -/
  | locking
  /-- Between `smpc_lock` and `smpc_unlock`. -/
  | held
  /-- `smpc_req` waits until the last execution is completed. -/
  | prev (r : SmpcReq F V)
  | status (r : SmpcReq F V) (bitmap : UW)
  | func (r : SmpcReq F V) (bitmap : UW)
  | param (r : SmpcReq F V) (bitmap : UW)
  | ipi (r : SmpcReq F V) (bitmap : UW)
  | self (r : SmpcReq F V) (bitmap : UW)
  | wait (sync : Bool) (res : UW)
  | wai

/-- What `do_request` does next. -/
inductive SmpcHdr (F : Type)
  | acp
  | func
  | param (func : F)
  | exe

/-- The driver control block, the processors and the interrupts between them. -/
structure SmpCall (F V : Type) where
  available_proc : UW
  lock : Bool
  intsts : Bool
  proc_info : Prid → SmpcPinfo F V
  main : Prid → SmpcPc F V
  /-- Interrupts are enabled. -/
  enabled : Prid → Bool
  /-- The interrupts of a processor that are pending, by their source. -/
  pending : Prid → Prid → Bool
  handler : Prid → Option (Prid × SmpcHdr F)
  /-- The calls a processor has asked for, with the processors that are to execute them. -/
  asked : Prid → List (UW × F × V)
  /-- The calls a processor has executed, with those who asked for them. -/
  ran : Prid → List (Prid × F × V)

namespace SmpCall

variable {F V : Type} (s : SmpCall F V) (p : Prid)

/-- After `smpc_init`. -/
def start : SmpCall F V where
  available_proc := 0
  lock := false
  intsts := false
  proc_info := init_pinfo
  main _ := .out
  enabled _ := true
  pending _ _ := false
  handler _ := none
  asked _ := []
  ran _ := []

def go (pc : SmpcPc F V) : SmpCall F V := { s with main := Function.update s.main p pc }

def setEnabled (b : Bool) : SmpCall F V := { s with enabled := Function.update s.enabled p b }

def setInfo (i : SmpcPinfo F V) : SmpCall F V :=
  { s with proc_info := Function.update s.proc_info p i }

def setStatus (status : UW) : SmpCall F V := s.setInfo p { s.proc_info p with status := status }

def setHandler (h : Option (Prid × SmpcHdr F)) : SmpCall F V :=
  { s with handler := Function.update s.handler p h }

def setIpi (dest : UW) : SmpCall F V :=
  { s with pending := fun q r => s.pending q r || r = p && dest.getLsbD q }

def clrIpi (source : Prid) : SmpCall F V :=
  { s with pending := Function.update s.pending p (Function.update (s.pending p) source false) }

def note (r : SmpcReq F V) (bitmap : UW) : SmpCall F V :=
  { s with asked := Function.update s.asked p (s.asked p ++
      [(bitmap ||| if r.self then (1 : UW) <<< p.val else 0, r.func, r.param)]) }

def execute (source : Prid) (func : F) (param : V) : SmpCall F V :=
  { s with ran := Function.update s.ran p (s.ran p ++ [(source, func, param)]) }

/-- The processors that `notify` finds. -/
def bitmap : UW := s.available_proc &&& (s.proc_info p).proc_mask

end SmpCall

open SmpCall in
/-- The functions of the driver, and what the processors do beside. The code that an interrupt has
interrupted waits for the end of the handler; `smpc_req` and `smpc_wai` are called with the lock. -/
inductive SmpcStep {F V : Type} (s : SmpCall F V) : SmpCall F V → Prop
  | own (p : Prid) (b : Bool) : s.handler p = none → s.main p = .out → SmpcStep s (s.setEnabled p b)
  | regist (p : Prid) : s.handler p = none → s.main p = .out →
      SmpcStep s { s with available_proc := s.available_proc ||| (1 : UW) <<< p.val }
  | lock (p : Prid) : s.handler p = none → s.main p = .out → SmpcStep s (s.go p .locking)
  | locked (p : Prid) : s.handler p = none → s.main p = .locking → s.lock = false →
      SmpcStep s ({ s with lock := true, intsts := s.enabled p }.setEnabled p false |>.go p .held)
  | unlock (p : Prid) : s.handler p = none → s.main p = .held →
      SmpcStep s ({ s with lock := false }.setEnabled p s.intsts |>.go p .out)
  | wai (p : Prid) : s.handler p = none → s.main p = .held → SmpcStep s (s.go p .wai)
  | waited (p : Prid) :
      s.handler p = none → s.main p = .wai → (s.proc_info p).status &&& EXE_MASK = 0 →
      SmpcStep s (s.go p .held)
  | req (p : Prid) (r : SmpcReq F V) :
      s.handler p = none → s.main p = .held → SmpcStep s (s.go p (.prev r))
  | prev (p : Prid) (r : SmpcReq F V) : s.handler p = none → s.main p = .prev r →
      (s.proc_info p).status &&& EXE_MASK = 0 →
      SmpcStep s (s.note p r (s.bitmap p) |>.go p
        (if s.bitmap p ≠ 0 then .status r (s.bitmap p) else .self r (s.bitmap p)))
  | status (p : Prid) (r : SmpcReq F V) (bitmap : UW) :
      s.handler p = none → s.main p = .status r bitmap →
      SmpcStep s (s.setStatus p (bitmap ||| bitmap <<< EXE_SHIFT) |>.go p (.func r bitmap))
  | func (p : Prid) (r : SmpcReq F V) (bitmap : UW) :
      s.handler p = none → s.main p = .func r bitmap →
      SmpcStep s (s.setInfo p { s.proc_info p with func := some r.func } |>.go p (.param r bitmap))
  | param (p : Prid) (r : SmpcReq F V) (bitmap : UW) :
      s.handler p = none → s.main p = .param r bitmap →
      SmpcStep s (s.setInfo p { s.proc_info p with param := some r.param } |>.go p (.ipi r bitmap))
  | ipi (p : Prid) (r : SmpcReq F V) (bitmap : UW) : s.handler p = none → s.main p = .ipi r bitmap →
      SmpcStep s (s.setIpi p bitmap |>.go p (.self r bitmap))
  | self (p : Prid) (r : SmpcReq F V) (res : UW) : s.handler p = none → s.main p = .self r res →
      SmpcStep s ((if r.self then s.execute p p r.func r.param else s).go p (.wait r.sync res))
  | returns (p : Prid) (sync : Bool) (res : UW) : s.handler p = none → s.main p = .wait sync res →
      (res ≠ 0 → (s.proc_info p).status &&& (if sync then EXE_MASK else ACP_MASK) = 0) →
      SmpcStep s (s.go p .held)
  /-- An interrupt is accepted: `smpc_handler` is called with its source. -/
  | interrupt (p source : Prid) :
      s.handler p = none → s.enabled p = true → s.pending p source = true →
      SmpcStep s (s.clrIpi p source |>.setEnabled p false |>.setHandler p (some (source, .acp)))
  | clrAcp (p source : Prid) : s.handler p = some (source, .acp) →
      SmpcStep s (s.setStatus source ((s.proc_info source).status &&& ~~~ACP_BIT p) |>.setHandler p
        (some (source, .func)))
  | loadFunc (p source : Prid) (func : F) : s.handler p = some (source, .func) →
      (s.proc_info source).func = some func →
      SmpcStep s (s.setHandler p (some (source, .param func)))
  | execute (p source : Prid) (func : F) (param : V) : s.handler p = some (source, .param func) →
      (s.proc_info source).param = some param →
      SmpcStep s (s.execute p source func param |>.setHandler p (some (source, .exe)))
  | clrExe (p source : Prid) : s.handler p = some (source, .exe) →
      SmpcStep s
        (s.setStatus source ((s.proc_info source).status &&& ~~~EXE_BIT p)
          |>.setHandler p none |>.setEnabled p true)

end SmpTKernel
