import SmpTKernel.ExtendedSvcRuns

/-!
# Task exception handlers

How a task exception that was raised comes to its handler: `_tk_def_tex`, `set_tex_mask` and
`_tk_end_tex` of `subsystem.c`, `request_tex` and `setup_texhdr` of `cpu_init.c`, around the
extended SVCs. A handler starts when its task is back at user level, with no call under way. Of
`setup_texhdr` the change of the stacks is left out. A startup, cleanup or event function runs like
a break function.
-/

namespace SmpTKernel

namespace TexBlock

variable (tcb : TexBlock)

/-- The critical section of `_tk_def_tex`; `rng0` for a task of protection level 0. -/
def defTex (state : TaskState) (prot : ER) (rng0 texhdr : Bool) : ER × TexBlock :=
  if state = .nonexist then (E_NOEXS, tcb)
  else if prot ≠ E_OK then (prot, tcb)
  else if rng0 then (E_OBJ, tcb)
  else (E_OK, { tcb with pendtex := 0, exectex := 0, texmask := 0, texhdr := texhdr })

/-- The critical section of `set_tex_mask`. -/
def setTexMask (state : TaskState) (prot : ER) (texmsk : BitVec 32) (enable : Bool) :
    ER × TexBlock :=
  if state = .nonexist then (E_NOEXS, tcb)
  else if prot ≠ E_OK then (prot, tcb)
  else
    let r : ER × TexBlock :=
      if !tcb.texhdr then (E_NOEXS, tcb)
      else
        let texmask := if enable then tcb.texmask ||| texmsk else tcb.texmask &&& ~~~texmsk
        (E_OK, { tcb with texmask := texmask, pendtex := tcb.pendtex &&& texmask })
    -- narrowed down once more, whether there is a handler or not
    (r.1, { r.2 with pendtex := r.2.pendtex &&& r.2.texmask })

/-- The loop of `setup_texhdr`, with `left` turns left. -/
def setupLoop (exectex : BitVec 32) : (left texcd : ℕ) → (m : BitVec 32) → ℕ × BitVec 32
  | 0, texcd, m => (texcd, m)
  | left + 1, texcd, m =>
    if exectex &&& m ≠ 0 then (texcd, m) else setupLoop exectex left (texcd + 1) (m <<< 1)

/-- `setup_texhdr`, and the code that the handler starts with, if it starts. -/
def setupTexhdr : Option ℕ × TexBlock :=
  let r := setupLoop tcb.exectex 32 0 1#32
  -- exception does not occur, or is cleared
  if r.1 > 31 then (none, tcb)
  else
    (some r.1, { tcb with
      exectex := 0
      pendtex := tcb.pendtex &&& ~~~r.2
      texflg := tcb.texflg ||| if r.1 = 0 then TEX0_RUNNING else TEX1_RUNNING })

/-- The loop of `_tk_end_tex`, which stops at a bit that is set; there are not more than `fuel`
bits. -/
def endLoop : (fuel texcd : ℕ) → (texptn : BitVec 32) → ℕ
  | 0, texcd, _ => texcd
  | fuel + 1, texcd, texptn =>
    if texptn &&& 1 = 0 then endLoop fuel (texcd + 1) (texptn >>> 1) else texcd

/-- The exception that `_tk_end_tex` returns. -/
def endCode : ℕ :=
  -- except exception code 0
  let texptn := tcb.pendtex &&& ~~~1
  if texptn ≠ 0 then endLoop 32 0 texptn else 0

/-- The critical section of `_tk_end_tex`, and whether it calls `request_tex`. -/
def endTex (enatex : Bool) : Bool × TexBlock :=
  if enatex ∨ tcb.endCode = 0 then
    (decide (tcb.endCode > 0),
      { tcb with texflg := tcb.texflg &&& ~~~TEX1_RUNNING, exectex := tcb.exectex ||| tcb.pendtex })
  -- continue task exception handler execution
  else (false, { tcb with pendtex := tcb.pendtex &&& ~~~(1#32 <<< tcb.endCode) })

/-- `_tk_end_tex`: the value it returns, and whether it calls `request_tex`. -/
def tkEndTex (ddsp enatex : Bool) : (ℤ × Bool) × TexBlock :=
  if ddsp then ((E_CTX, false), tcb)
  else if tcb.texflg &&& (TEX0_RUNNING ||| TEX1_RUNNING) ≠ TEX1_RUNNING then ((E_CTX, false), tcb)
  else ((tcb.endCode, (tcb.endTex enatex).1), (tcb.endTex enatex).2)

end TexBlock

/-- The system with the parts of the task control blocks that start task exception handlers. -/
structure TexSys where
  ext : ExtSvc
  /-- DCT request. -/
  reqdct : Tsk → Bool
  /-- Task operation mode initial value; it is 0 but for tasks of protection level 0. -/
  isysmode : Tsk → BitVec 16

def Frame.raises : Frame → Option (Tsk × ℤ)
  | rasRaise tcb texcd => some (tcb, texcd)
  | _ => none

/-- The task exception that the next step of the processor raises. -/
def ExtSvc.raising (s : ExtSvc) (prid : ℕ) : Option (Tsk × ℤ) :=
  (s.locks.ctxtsk prid).bind fun t => (s.calls t).head?.bind Frame.raises

inductive TexOp
  /-- An extended SVC or `tk_ras_tex` begins, goes on or returns; tasks are created, started and
  dispatched. -/
  | ext (op : ExtOp)
  /-- `_tk_sta_ssy`, `_tk_cln_ssy` or `_tk_evt_ssy` begins. -/
  | ssy (prid : ℕ)
  | defTex (t : Tsk) (prot : ER) (texhdr : Bool)
  /-- `_tk_dis_tex` or `_tk_ena_tex`. -/
  | setMask (t : Tsk) (prot : ER) (texmsk : BitVec 32) (enable : Bool)
  | endTex (prid : ℕ) (ddsp enatex : Bool)
  /-- The processor is on the way back to user level. -/
  | dct (prid : ℕ)

namespace TexSys

variable (s : TexSys)

/-- The start of the system. -/
def start (locklist : Lock → Option Lock) (tcb : Tsk → TexBlock) (isysmode : Tsk → BitVec 16) :
    TexSys where
  ext := ExtSvc.start locklist tcb
  reqdct _ := false
  isysmode := isysmode

def setTcb (t : Tsk) (tcb : TexBlock) : TexSys := { s with ext := s.ext.setTcb t tcb }

def setCalls (t : Tsk) (calls : List Frame) : TexSys := { s with ext := s.ext.setCalls t calls }

/-- Task exception handler startup reservation. -/
def requestTex (t : Tsk) : TexSys :=
  if s.isysmode t = 0 then { s with reqdct := Function.update s.reqdct t true } else s

/-- The critical section of `_tk_ras_tex` for `t`. -/
def raise (prot : ER) (t : Tsk) (texcd : ℤ) : (ER × Bool) × TexBlock :=
  (s.ext.tcb t).raise (s.ext.locks.state t) prot texcd

/-- What a step of the extended SVCs does besides, from `s` to `ext`. -/
def after (ext : ExtSvc) : ExtOp → TexSys
  | .step prid prot =>
    match s.ext.raising prid with
    | some (t, texcd) =>
      if (s.raise prot t texcd).1.2 then requestTex { s with ext := ext } t
      else { s with ext := ext }
    | none => { s with ext := ext }
  | .cre t isysmode =>
    { ext := ext
      reqdct := Function.update s.reqdct t false
      isysmode := Function.update s.isysmode t isysmode }
  | _ => { s with ext := ext }

/-- A subsystem function is called. -/
def callSsy (t : Tsk) : TexSys :=
  let tcb := s.ext.tcb t
  (s.setTcb t { tcb with
    texflg := tcb.texflg ||| SSFN_RUNNING, sysmode := tcb.sysmode + 1 }).setCalls t
    (.brkFn tcb.texflg :: .selfBreak E_OK :: s.ext.calls t)

def tkEndTex (t : Tsk) (ddsp enatex : Bool) : TexSys :=
  let r := (s.ext.tcb t).tkEndTex ddsp enatex
  if r.1.2 then (s.setTcb t r.2).requestTex t else s.setTcb t r.2

/-- `setup_texhdr`, for the task that the processor executes. -/
def setupTexhdr (t : Tsk) : TexSys :=
  { s.setTcb t (s.ext.tcb t).setupTexhdr.2 with reqdct := Function.update s.reqdct t false }

end TexSys

namespace TexOp

def exec (numProc maxSsyid : ℕ) (s : TexSys) : TexOp → Option TexSys
  | ext op => (op.exec numProc maxSsyid s.ext).map fun ext => s.after ext op
  | ssy prid => (s.ext.locks.ctxtsk prid).map s.callSsy
  | defTex t prot texhdr =>
    some (s.setTcb t ((s.ext.tcb t).defTex (s.ext.locks.state t) prot (s.isysmode t ≠ 0) texhdr).2)
  | setMask t prot texmsk enable =>
    some (s.setTcb t ((s.ext.tcb t).setTexMask (s.ext.locks.state t) prot texmsk enable).2)
  | endTex prid ddsp enatex => (s.ext.locks.ctxtsk prid).map fun t => s.tkEndTex t ddsp enatex
  | dct prid => (s.ext.locks.ctxtsk prid).map s.setupTexhdr

/-- Calls come from user code. At user level with a DCT request, `setup_texhdr` is called. -/
def Legal (numProc : ℕ) (s : TexSys) : TexOp → Prop
  | ext op => op.Legal numProc s.ext ∧ ∀ t tcb, op ≠ .setTcb t tcb
  | ssy prid | endTex prid _ _ => ∃ t, Executes s.ext.locks prid t ∧ s.ext.InUser t
  | defTex _ _ _ | setMask _ _ _ _ => True
  | dct prid => ∃ t, Executes s.ext.locks prid t ∧ s.ext.calls t = [] ∧ s.reqdct t = true

/-- `tk_end_tex` is not called from a subsystem function, which would undo what it does to
`texflg`. -/
def FromHandler (s : TexSys) : TexOp → Prop
  | endTex prid _ _ => ∀ t, s.ext.locks.ctxtsk prid = some t →
      ∀ texflg, Frame.brkFn texflg ∉ s.ext.calls t
  | _ => True

end TexOp

end SmpTKernel
