import SmpTKernel.Timer

/-!
# Cyclic and alarm handlers

The handlers of `time_calls.c`. A handler that is started has its timer event block in the timer
queue; when the time comes the block moves to the pending handlers of a processor, which that
processor calls one after the other. The critical section is left while a handler runs: what remains
to be done then is a frame, kept for the processor it runs on.
-/

namespace SmpTKernel

abbrev TA_STA : ℕ := 0x00000002
abbrev TA_PHS : ℕ := 0x00000004

/-! ## Processors -/

/-- `ALL_CORE_BIT`. -/
def allCoreBit (numProc : ℕ) : BitVec 32 := 0xFFFFFFFF#32 >>> (32 - numProc)

/-- `bit_tbl`. -/
def bitTbl : List ℕ := [0, 0, 1, 0, 2, 0, 1, 0, 3, 0, 1, 0, 2, 0, 1, 0]

/-- The loop of `assprc_to_prid`, over the `n` groups of four bits that are left. -/
def assprcPlace : ℕ → BitVec 32 → ℕ → ℕ
  | 0, _, _ => 0
  | n + 1, assprc, prid =>
    let bit := assprc &&& 0xf
    if bit ≠ 0 then prid + bitTbl.getD bit.toNat 0 else assprcPlace n (assprc >>> 4) (prid + 4)

def assprcToPrid (assprc : BitVec 32) : ℕ := if assprc ≠ 0 then assprcPlace 8 assprc 0 else 0

def chkAssprc (numProc : ℕ) (assprc : BitVec 32) : Bool :=
  !(assprc = 0 ∨ assprc &&& ~~~allCoreBit numProc ≠ 0 ∨ assprc &&& (assprc - 1) ≠ 0)

/-! ## Control blocks -/

abbrev TCYC_STP : BitVec 32 := 0
abbrev TCYC_STA : BitVec 32 := 1
abbrev TCYC_RUN : BitVec 32 := 2
abbrev TCYC_IMM : BitVec 32 := 4
abbrev TALM_STP : BitVec 32 := 0
abbrev TALM_STA : BitVec 32 := 1
abbrev TALM_RUN : BitVec 32 := 2
abbrev TALM_IMM : BitVec 32 := 4

/-- Cyclic handler control block, without its event block. In a free block the link in the free
queue lies where `exinf` and `cycatr` are. -/
structure Cyccb where
  exinf : ℕ
  cycatr : ℕ
  /-- 0 is `NULL`. -/
  cychdr : ℕ
  cycstat : BitVec 32
  cyctim : ℕ
  assprc : BitVec 32
  cycno : BitVec 32
  deriving Repr

structure Almcb where
  exinf : ℕ
  almatr : ℕ
  almhdr : ℕ
  almstat : BitVec 32
  assprc : BitVec 32
  almno : BitVec 32
  deriving Repr

/-- `para`: what `copy_cyccb` or `copy_almcb` copies for the call of the handler. -/
structure HdrPara where
  exinf : ℕ
  hdr : ℕ
  no : BitVec 32
  deriving Repr

/-- What goes on after a handler has returned. -/
inductive HdrFrame
  /-- In `call_cychdr`, from the loop of `handler_execution`. -/
  | cychdr (i : ℕ) (para : HdrPara)
  | almhdr (i : ℕ) (para : HdrPara)
  /-- In `immediate_call_cychdr`. -/
  | immCychdr (i : ℕ) (para : HdrPara)
  | immAlmhdr (i : ℕ) (para : HdrPara)

/-- What there is besides the timer. -/
structure Hdrs where
  tcb : Tsk → WaitTcb
  cyccb : ℕ → Cyccb
  free_cyccb : List ℕ
  almcb : ℕ → Almcb
  free_almcb : List ℕ
  /-- The handlers that run, by processor, the innermost first. -/
  running : ℕ → List HdrFrame
  /-- The interrupt that requests handlers is on its way to a processor. -/
  request : ℕ → Bool

abbrev HdrState := Timer × Hdrs

def Cyccb.isAssprc (cyccb : Cyccb) : Bool := cyccb.cycatr &&& TA_ASSPRC ≠ 0
def Almcb.isAssprc (almcb : Almcb) : Bool := almcb.almatr &&& TA_ASSPRC ≠ 0
def Almcb.isRun (almcb : Almcb) : Bool := almcb.almstat &&& TALM_RUN ≠ 0
def Almcb.isImm (almcb : Almcb) : Bool := almcb.almstat &&& TALM_IMM ≠ 0

/-- `copy_cyccb`. -/
def Cyccb.para (cyccb : Cyccb) : HdrPara := ⟨cyccb.exinf, cyccb.cychdr, cyccb.cycno⟩

/-- `copy_almcb`. -/
def Almcb.para (almcb : Almcb) : HdrPara := ⟨almcb.exinf, almcb.almhdr, almcb.almno⟩

namespace Hdrs

variable (h : Hdrs)

def setCyccb (i : ℕ) (cyccb : Cyccb) : Hdrs := { h with cyccb := Function.update h.cyccb i cyccb }

def setAlmcb (i : ℕ) (almcb : Almcb) : Hdrs := { h with almcb := Function.update h.almcb i almcb }

/-- The critical section is left, and a handler runs. -/
def leave (prid : ℕ) (frame : HdrFrame) : Hdrs :=
  { h with running := Function.update h.running prid (frame :: h.running prid) }

end Hdrs

/-! ## Handler queues -/

/-- `handler_initialize`, on a board with `maxProc` processors. -/
def handlerQueuesInit (maxProc : ℕ) (s : Timer) : Timer :=
  (List.range maxProc).foldl (fun s i =>
    { s with
      handler_queue := Function.update s.handler_queue i ⟨false, false⟩
      que := queInit (.que (.hdrque i)) s.que }) s

def enqueueHandler (prid : ℕ) (event : Tmeb) (cback : Cback) (arg : ℕ) (s : Timer) : Timer :=
  let s := s.setCallback event (some cback) arg
  { s with
    que := queInsert (.tmeb event) (.que (.hdrque prid)) s.que
    handler_queue :=
      Function.update s.handler_queue prid { s.handler_queue prid with upd := true } }

/-- The processors that have to be told of new handlers. -/
def checkHandlerQueue (maxProc : ℕ) (s : Timer) : BitVec 32 × Timer :=
  (List.range maxProc).foldl (fun r i =>
    let hq := r.2.handler_queue i
    let new := hq.upd && !hq.act
    (if new then r.1 ||| 1#32 <<< i else r.1,
      { r.2 with
        handler_queue :=
          Function.update r.2.handler_queue i ⟨false, if new then true else hq.act⟩ }))
    (0, s)

/-- Notify the other processors; whether the own one is among the processors `assprc`. -/
def handlerRequest (prid : ℕ) (assprc : BitVec 32) (h : Hdrs) : Bool × Hdrs :=
  let list := assprc &&& ~~~(1#32 <<< prid)
  (assprc &&& 1#32 <<< prid ≠ 0, { h with request := fun i => h.request i || list.getLsbD i })

/-! ## Calls of handlers -/

/-- Next startup time. -/
def cycNextTime (i : ℕ) (w : HdrState) : ℤ :=
  let time := w.1.time (.cyctmeb i)
  let cyctim := (w.2.cyccb i).cyctim
  let tm := llAdd time cyctim
  if llCmp tm w.1.current_time ≤ 0 then
    -- later than the current time
    let n := longlong (luiDiv (llSub w.1.current_time time) cyctim + 1)
    llAdd time (luiMul n cyctim)
  else tm

def distributeCychdr (prid i : ℕ) (w : HdrState) : HdrState :=
  let prid := if (w.2.cyccb i).isAssprc then assprcToPrid (w.2.cyccb i).assprc else prid
  (enqueueHandler prid (.cyctmeb i) .callCychdr i w.1, w.2)

def cycTimerInsert (fuel i : ℕ) (tm : ℤ) (w : HdrState) : Option HdrState :=
  (timerInsertAbs fuel w.1 (.cyctmeb i) tm (some .distributeCychdr) i).map fun s => (s, w.2)

/-- Up to the call of the handler. -/
def callCychdr (fuel prid i : ℕ) (w : HdrState) : Option HdrState :=
  (cycTimerInsert fuel i (cycNextTime i w) w).map fun w =>
    let cyccb := w.2.cyccb i
    let h := w.2.setCyccb i { cyccb with cycstat := cyccb.cycstat ||| TCYC_RUN }
    (w.1, h.leave prid (.cychdr i cyccb.para))

def distributeAlmhdr (prid i : ℕ) (w : HdrState) : HdrState :=
  let prid := if (w.2.almcb i).isAssprc then assprcToPrid (w.2.almcb i).assprc else prid
  (enqueueHandler prid (.almtmeb i) .callAlmhdr i w.1, w.2)

def callAlmhdr (prid i : ℕ) (w : HdrState) : HdrState :=
  let almcb := w.2.almcb i
  let h := w.2.setAlmcb i { almcb with almstat := (almcb.almstat &&& ~~~TALM_STA) ||| TALM_RUN }
  (w.1, h.leave prid (.almhdr i almcb.para))

/-- Handler execution, up to the call of the first handler. The handler queues hold no other
callbacks. -/
def handlerExecution (fuel prid : ℕ) (w : HdrState) : Option HdrState :=
  match (w.1.que (.que (.hdrque prid))).next with
  | .que _ =>
    let hq := w.1.handler_queue
    some ({ w.1 with handler_queue := Function.update hq prid { hq prid with act := false } }, w.2)
  | .tmeb event =>
    let w := ({ w.1 with que := queRemove (.tmeb event) w.1.que }, w.2)
    match w.1.callback event with
    | some .callCychdr => callCychdr fuel prid (w.1.arg event) w
    | some .callAlmhdr => some (callAlmhdr prid (w.1.arg event) w)
    | _ => none

def handlerUpdate (fuel prid : ℕ) (assprc : BitVec 32) (w : HdrState) : Option HdrState :=
  if assprc ≠ 0 then
    let r := handlerRequest prid assprc w.2
    if r.1 then handlerExecution fuel prid (w.1, r.2) else some (w.1, r.2)
  else some w

/-- The handler has returned, and the critical section goes on. -/
def handlerReturn (fuel prid : ℕ) (w : HdrState) : HdrFrame → Option HdrState
  | .cychdr i para =>
    let cyccb := w.2.cyccb i
    let cycstat := if para.no = cyccb.cycno then cyccb.cycstat &&& ~~~TCYC_RUN else cyccb.cycstat
    handlerExecution fuel prid (w.1, w.2.setCyccb i { cyccb with cycstat := cycstat })
  | .almhdr i para =>
    let almcb := w.2.almcb i
    let almstat := if para.no = almcb.almno then almcb.almstat &&& ~~~TALM_RUN else almcb.almstat
    handlerExecution fuel prid (w.1, w.2.setAlmcb i { almcb with almstat := almstat })
  | .immCychdr i para =>
    let cyccb := w.2.cyccb i
    let cycstat :=
      if para.no = cyccb.cycno then cyccb.cycstat &&& ~~~(TCYC_RUN ||| TCYC_IMM) else cyccb.cycstat
    some (w.1, w.2.setCyccb i { cyccb with cycstat := cycstat })
  | .immAlmhdr i para =>
    let almcb := w.2.almcb i
    let almstat :=
      if para.no = almcb.almno then almcb.almstat &&& ~~~(TALM_RUN ||| TALM_IMM) else almcb.almstat
    some (w.1, w.2.setAlmcb i { almcb with almstat := almstat })

def immediateCallCychdr (maxProc fuel prid i : ℕ) (w : HdrState) : Option HdrState :=
  if (w.2.cyccb i).isAssprc then
    let w := distributeCychdr prid i w
    let r := checkHandlerQueue maxProc w.1
    handlerUpdate fuel prid r.1 (r.2, w.2)
  else
    (cycTimerInsert fuel i (cycNextTime i w) w).map fun w =>
      let cyccb := w.2.cyccb i
      let h := w.2.setCyccb i { cyccb with cycstat := cyccb.cycstat ||| (TCYC_RUN ||| TCYC_IMM) }
      (w.1, h.leave prid (.immCychdr i cyccb.para))

def immediateCallAlmhdr (maxProc fuel prid i : ℕ) (w : HdrState) : Option HdrState :=
  let almcb := w.2.almcb i
  if almcb.isAssprc then
    let w := (w.1, w.2.setAlmcb i { almcb with almstat := almcb.almstat ||| TALM_STA })
    let w := distributeAlmhdr prid i w
    let r := checkHandlerQueue maxProc w.1
    handlerUpdate fuel prid r.1 (r.2, w.2)
  else
    let almstat := (almcb.almstat &&& ~~~TALM_STA) ||| (TALM_RUN ||| TALM_IMM)
    let h := w.2.setAlmcb i { almcb with almstat := almstat }
    some (w.1, h.leave prid (.immAlmhdr i almcb.para))

/-! ## System calls

`prid` is the processor of the caller. `idOk` says that the identifier is in its range, `prot` is
the result of the checks of domain, name and protection. The value is what the call returns, which
may be only after the handlers it starts. -/

abbrev HdrResult := HdrState × ℤ

section SystemCalls

variable (TIMER_PERIOD maxProc numProc : ℕ)

/-- `T_CCYC`; `cycid` is the identifier that the new handler gets. -/
structure Tccyc where
  exinf : ℕ
  cycatr : ℕ
  cychdr : ℕ
  cyctim : ℕ
  cycphs : ℕ
  assprc : BitVec 32
  cycid : ℤ

/-- `rsatrOk` is the check of the attributes. -/
def tkCreCyc (fuel prid : ℕ) (pk : Tccyc) (rsatrOk : Bool) (prot : ER) (w : HdrState) :
    Option HdrResult :=
  if !rsatrOk then some (w, E_RSATR)
  else if pk.cychdr = 0 then some (w, E_PAR)
  else if ¬pk.cyctim > 0 then some (w, E_PAR)
  else if pk.cycatr &&& TA_ASSPRC ≠ 0 ∧ !chkAssprc numProc pk.assprc then some (w, E_PAR)
  else if prot ≠ E_OK then some (w, prot)
  else
    match w.2.free_cyccb with
    | [] => some (w, E_LIMIT)
    | i :: free =>
      let sta := pk.cycatr &&& TA_STA ≠ 0
      let cyccb : Cyccb := { w.2.cyccb i with
        exinf := pk.exinf
        cycatr := pk.cycatr
        cychdr := pk.cychdr
        cyctim := pk.cyctim
        assprc := if pk.cycatr &&& TA_ASSPRC ≠ 0 then pk.assprc else 0
        cycstat := if sta then TCYC_STA else TCYC_STP }
      let w := (w.1, { w.2 with free_cyccb := free }.setCyccb i cyccb)
      -- first startup time
      let tm := llAdd (llAdd w.1.current_time pk.cycphs) TIMER_PERIOD
      let w' :=
        if sta then
          if pk.cycphs = 0 then
            immediateCallCychdr maxProc fuel prid i (w.1.setTime (.cyctmeb i) tm, w.2)
          else cycTimerInsert fuel i tm w
        else some (w.1.setTime (.cyctmeb i) tm, w.2)
      w'.map fun w => (w, pk.cycid)

def tkDelCyc (i : ℕ) (idOk : Bool) (prot : ER) (w : HdrState) : HdrResult :=
  let cyccb := w.2.cyccb i
  if !idOk then (w, E_ID)
  else if cyccb.cychdr = 0 then (w, E_NOEXS)
  else if prot ≠ E_OK then (w, prot)
  else
    let s := if cyccb.cycstat &&& TCYC_STA ≠ 0 then timerDelete w.1 (.cyctmeb i) else w.1
    let h := { w.2 with free_cyccb := w.2.free_cyccb ++ [i] }
    ((s, h.setCyccb i { cyccb with cychdr := 0, cycno := cyccb.cycno + 1 }), E_OK)

def tkStaCyc (fuel i : ℕ) (idOk : Bool) (prot : ER) (w : HdrState) : Option HdrResult :=
  let cyccb := w.2.cyccb i
  if !idOk then some (w, E_ID)
  else if cyccb.cychdr = 0 then some (w, E_NOEXS)
  else if prot ≠ E_OK then some (w, prot)
  else
    let w' :=
      if cyccb.cycatr &&& TA_PHS ≠ 0 then
        -- continue cyclic phase
        if cyccb.cycstat &&& TCYC_STA = 0 then
          let tm := w.1.time (.cyctmeb i)
          cycTimerInsert fuel i (if llCmp tm w.1.current_time ≤ 0 then cycNextTime i w else tm) w
        else some w
      else
        -- reset cyclic interval
        let s := if cyccb.cycstat &&& TCYC_STA ≠ 0 then timerDelete w.1 (.cyctmeb i) else w.1
        cycTimerInsert fuel i (llAdd (llAdd w.1.current_time cyccb.cyctim) TIMER_PERIOD) (s, w.2)
    w'.map fun w =>
      ((w.1, w.2.setCyccb i { cyccb with cycstat := cyccb.cycstat ||| TCYC_STA }), E_OK)

def tkStpCyc (i : ℕ) (idOk : Bool) (prot : ER) (w : HdrState) : HdrResult :=
  let cyccb := w.2.cyccb i
  if !idOk then (w, E_ID)
  else if cyccb.cychdr = 0 then (w, E_NOEXS)
  else if prot ≠ E_OK then (w, prot)
  else
    let s := if cyccb.cycstat &&& TCYC_STA ≠ 0 then timerDelete w.1 (.cyctmeb i) else w.1
    ((s, w.2.setCyccb i { cyccb with cycstat := cyccb.cycstat &&& ~~~TCYC_STA }), E_OK)

def almTimerInsert (fuel i reltim : ℕ) (w : HdrState) : Option HdrState :=
  let tm := llAdd (llAdd w.1.current_time reltim) TIMER_PERIOD
  (timerInsertAbs fuel w.1 (.almtmeb i) tm (some .distributeAlmhdr) i).map fun s => (s, w.2)

/-- `T_CALM`; `almid` is the identifier that the new handler gets. -/
structure Tcalm where
  exinf : ℕ
  almatr : ℕ
  almhdr : ℕ
  assprc : BitVec 32
  almid : ℤ

def tkCreAlm (pk : Tcalm) (rsatrOk : Bool) (prot : ER) (w : HdrState) : HdrResult :=
  if !rsatrOk then (w, E_RSATR)
  else if pk.almhdr = 0 then (w, E_PAR)
  else if pk.almatr &&& TA_ASSPRC ≠ 0 ∧ !chkAssprc numProc pk.assprc then (w, E_PAR)
  else if prot ≠ E_OK then (w, prot)
  else
    match w.2.free_almcb with
    | [] => (w, E_LIMIT)
    | i :: free =>
      let almcb : Almcb := { w.2.almcb i with
        exinf := pk.exinf
        almatr := pk.almatr
        almhdr := pk.almhdr
        almstat := TALM_STP
        assprc := if pk.almatr &&& TA_ASSPRC ≠ 0 then pk.assprc else 0 }
      ((w.1, { w.2 with free_almcb := free }.setAlmcb i almcb), pk.almid)

def tkDelAlm (i : ℕ) (idOk : Bool) (prot : ER) (w : HdrState) : HdrResult :=
  let almcb := w.2.almcb i
  if !idOk then (w, E_ID)
  else if almcb.almhdr = 0 then (w, E_NOEXS)
  else if prot ≠ E_OK then (w, prot)
  else
    let s := if almcb.almstat &&& TALM_STA ≠ 0 then timerDelete w.1 (.almtmeb i) else w.1
    let h := { w.2 with free_almcb := w.2.free_almcb ++ [i] }
    ((s, h.setAlmcb i { almcb with almhdr := 0, almno := almcb.almno + 1 }), E_OK)

def tkStaAlm (fuel prid i almtim : ℕ) (idOk : Bool) (prot : ER) (w : HdrState) : Option HdrResult :=
  let almcb := w.2.almcb i
  if !idOk then some (w, E_ID)
  else if almcb.almhdr = 0 then some (w, E_NOEXS)
  else if prot ≠ E_OK then some (w, prot)
  else if almcb.isRun ∧ (almtim = 0 ∧ almcb.isImm ∨ !almcb.isAssprc ∧
      (almtim = 0 ∨ almcb.isImm)) then
    some (w, E_OBJ)
  else
    -- cancel current settings
    let s := if almcb.almstat &&& TALM_STA ≠ 0 then timerDelete w.1 (.almtmeb i) else w.1
    let w' :=
      if almtim > 0 then
        (almTimerInsert TIMER_PERIOD fuel i almtim (s, w.2)).map fun w =>
          (w.1, w.2.setAlmcb i { almcb with almstat := almcb.almstat ||| TALM_STA })
      else immediateCallAlmhdr maxProc fuel prid i (s, w.2)
    w'.map fun w => (w, E_OK)

def tkStpAlm (i : ℕ) (idOk : Bool) (prot : ER) (w : HdrState) : HdrResult :=
  let almcb := w.2.almcb i
  if !idOk then (w, E_ID)
  else if almcb.almhdr = 0 then (w, E_NOEXS)
  else if prot ≠ E_OK then (w, prot)
  else if almcb.almstat &&& TALM_STA ≠ 0 then
    ((timerDelete w.1 (.almtmeb i),
      w.2.setAlmcb i { almcb with almstat := almcb.almstat &&& ~~~TALM_STA }), E_OK)
  else (w, E_OK)

/-! ## Interrupts -/

/-- The callbacks of the timer queue. -/
def timerCback (prid : ℕ) (cback : Cback) (arg : ℕ) (w : HdrState) : Option HdrState :=
  match cback with
  | .waitReleaseTmout => some (w.1, { w.2 with tcb := waitReleaseTmout w.2.tcb arg })
  | .distributeCychdr => some (distributeCychdr prid arg w)
  | .distributeAlmhdr => some (distributeAlmhdr prid arg w)
  | _ => none

/-- `timer_handler` on a processor. -/
def hdrTick (fuel prid : ℕ) (w : HdrState) : Option HdrState :=
  timerHandler TIMER_PERIOD (fun _ h => h) (startEvent (timerCback prid)) (fun w =>
    let r := checkHandlerQueue maxProc w.1
    handlerUpdate fuel prid r.1 (r.2, w.2)) fuel w

/-- `handler_interrupt`, when its interrupt arrives. -/
def handlerInterrupt (fuel prid : ℕ) (w : HdrState) : Option HdrState :=
  handlerExecution fuel prid (w.1, { w.2 with request := Function.update w.2.request prid false })

end SystemCalls

end SmpTKernel
