import SmpTKernel.WaitQueue

/-!
# Event flags

`eventflag.c`: a task waits for bits of a pattern, all of them or any; a set releases the tasks
whose condition is met, in the order of the queue, and each of these may clear bits on its way. The
state is the control block and what the tasks contribute; who is released with which pattern is
recorded as events. A value that a call returns at once is the last component of the result.
-/

namespace SmpTKernel

/-- Enable multiple tasks wait. -/
abbrev TA_WMUL : ℕ := 0x00000008

abbrev TWF_ANDW : BitVec 32 := 0x00000000
abbrev TWF_ORW : BitVec 32 := 0x00000001
abbrev TWF_CLR : BitVec 32 := 0x00000010
abbrev TWF_BITCLR : BitVec 32 := 0x00000020

/-- Event flag control block, and the fields of the tasks it works with. -/
structure Flgcb where
  wait_queue : List Tsk
  flgatr : ℕ
  flgptn : BitVec 32
  priority : Tsk → ℕ
  waitmask : Tsk → ℕ
  nodiswai : Tsk → Bool
  /-- `winfo.flg.waiptn` -/
  waiptn : Tsk → BitVec 32
  wfmode : Tsk → BitVec 32

inductive FlgEvent
  /-- The task stops waiting, or does not have to, and receives the pattern. -/
  | released (t : Tsk) (flgptn : BitVec 32)
  /-- A wait ends with an error or with its task. -/
  | waitEnds (t : Tsk) (ercd : Option ER)
  deriving DecidableEq, Repr

abbrev FlgResult := Flgcb × List FlgEvent × Option ℤ

/-- Check for event flag wait release condition. -/
def eventflagCond (flgptn waiptn wfmode : BitVec 32) : Bool :=
  if wfmode &&& TWF_ORW ≠ 0 then flgptn &&& waiptn ≠ 0 else flgptn &&& waiptn = waiptn

/-- `_tk_cre_flg`: the error, or the new control block. -/
def tkCreFlg (rsatrOk : Bool) (prot : ER) (flgatr : ℕ) (iflgptn : BitVec 32) (s : Flgcb) :
    Except ER Flgcb :=
  if !rsatrOk then .error E_RSATR
  else if prot ≠ E_OK then .error prot
  else
    .ok { s with
      wait_queue := []
      flgatr := flgatr
      flgptn := iflgptn }

namespace Flgcb

variable (s : Flgcb)

/-- `flg_chg_pri`. -/
def flgChgPri (t : Tsk) : Flgcb :=
  { s with wait_queue := gcbChangePriority s.priority t s.wait_queue }

/-! ## System calls

`idOk` says that the identifier is in its range, `prot` is the result of the checks of existence,
domain and protection, `ddsp` says that dispatching is disabled. -/

/-- The loop of `_tk_set_flg`, over the tasks left in the queue: search tasks which should be
released. -/
def setLoop (s : Flgcb) : List Tsk → Flgcb × List FlgEvent
  | [] => ({ s with wait_queue := [] }, [])
  | tcb :: queue =>
    let waiptn := s.waiptn tcb
    let wfmode := s.wfmode tcb
    if eventflagCond s.flgptn waiptn wfmode then
      let ev := FlgEvent.released tcb s.flgptn
      -- clear event flag
      let flgptn := if wfmode &&& TWF_BITCLR ≠ 0 then s.flgptn &&& ~~~waiptn else s.flgptn
      if wfmode &&& TWF_BITCLR ≠ 0 ∧ flgptn = 0 then
        ({ s with flgptn := flgptn, wait_queue := queue }, [ev])
      else if wfmode &&& TWF_CLR ≠ 0 then ({ s with flgptn := 0, wait_queue := queue }, [ev])
      else
        let r := setLoop { s with flgptn := flgptn } queue
        (r.1, ev :: r.2)
    else
      let r := setLoop s queue
      ({ r.1 with wait_queue := tcb :: r.1.wait_queue }, r.2)

def tkSetFlg (idOk : Bool) (prot : ER) (setptn : BitVec 32) : FlgResult :=
  if !idOk then (s, [], some E_ID)
  else if prot ≠ E_OK then (s, [], some prot)
  else
    let r := setLoop { s with flgptn := s.flgptn ||| setptn } s.wait_queue
    (r.1, r.2, some E_OK)

def tkClrFlg (idOk : Bool) (prot : ER) (clrptn : BitVec 32) : FlgResult :=
  if !idOk then (s, [], some E_ID)
  else if prot ≠ E_OK then (s, [], some prot)
  else ({ s with flgptn := s.flgptn &&& clrptn }, [], some E_OK)

/-- The part of `gcb_make_wait_with_diswai` that waits. -/
def makeWait (self : Tsk) : Flgcb :=
  { s with
    wait_queue := gcbInsert s.flgatr s.priority self s.wait_queue
    nodiswai := Function.update s.nodiswai self (s.flgatr &&& TA_NODISWAI ≠ 0) }

def tkWaiFlg (self : Tsk) (idOk ddsp : Bool) (prot : ER) (waiptn wfmode : BitVec 32) (tmout : ℤ) :
    FlgResult :=
  if !idOk then (s, [], some E_ID)
  else if ¬waiptn ≠ 0 then (s, [], some E_PAR)
  else if ¬wfmode &&& ~~~(TWF_ORW ||| TWF_CLR ||| TWF_BITCLR) = 0 then (s, [], some E_PAR)
  else if ¬tmout ≥ TMO_FEVR then (s, [], some E_PAR)
  else if ddsp then (s, [], some E_CTX)
  else if prot ≠ E_OK then (s, [], some prot)
  else if s.flgatr &&& TA_WMUL = 0 ∧ !s.wait_queue.isEmpty then
    -- disable multiple tasks wait
    (s, [], some E_OBJ)
  else if isDiswai s.flgatr (s.waitmask self) TTW_FLG then (s, [], some E_DISWAI)
  else if eventflagCond s.flgptn waiptn wfmode then
    let ev := FlgEvent.released self s.flgptn
    -- clear event flag
    let s := if wfmode &&& TWF_BITCLR ≠ 0 then { s with flgptn := s.flgptn &&& ~~~waiptn } else s
    let s := if wfmode &&& TWF_CLR ≠ 0 then { s with flgptn := 0 } else s
    (s, [ev], some E_OK)
  else
    -- ready for wait
    let s := { s with
      waiptn := Function.update s.waiptn self waiptn
      wfmode := Function.update s.wfmode self wfmode }
    if isDiswai s.flgatr (s.waitmask self) TTW_FLG then (s, [], some E_DISWAI)
    else if tmout = TMO_POL then (s, [], some E_TMOUT)
    else (s.makeWait self, [], none)

/-! ## The end of a wait -/

/-- The wait of a task ends with an error, or (`none`) with its task. -/
def endWait (t : Tsk) (ercd : Option ER) : Flgcb × List FlgEvent :=
  ({ s with wait_queue := s.wait_queue.erase t }, [.waitEnds t ercd])

/-- `wait_release_tmout`, for a task in this queue. -/
def waitReleaseTmout (t : Tsk) : FlgResult :=
  if t ∈ s.wait_queue then ((s.endWait t (some E_TMOUT)).1, (s.endWait t (some E_TMOUT)).2, none)
  else (s, [], none)

/-- `_tk_rel_wai`; `chk` is the result of its checks. -/
def tkRelWai (t : Tsk) (chk : ER) : FlgResult :=
  if chk ≠ E_OK then (s, [], some chk)
  else if t ∈ s.wait_queue then
    let r := s.endWait t (some E_RLWAI)
    (r.1, r.2, some E_OK)
  else (s, [], some E_OK)

/-- `_tk_dis_wai`; `elsewhere` is its result for a task that does not wait here. -/
def tkDisWai (t : Tsk) (waitmask : ℕ) (chk : ER) (elsewhere : ℤ) : FlgResult :=
  if chk ≠ E_OK then (s, [], some chk)
  else
    let s := { s with waitmask := Function.update s.waitmask t waitmask }
    if t ∈ s.wait_queue then
      if TTW_FLG &&& waitmask ≠ 0 ∧ !s.nodiswai t then
        let r := s.endWait t (some E_DISWAI)
        (r.1, r.2, some 0)
      else (s, [], some TTW_FLG)
    else (s, [], some elsewhere)

/-- `_tk_ena_wai`. -/
def tkEnaWai (t : Tsk) (chk : ER) : FlgResult :=
  if chk ≠ E_OK then (s, [], some chk)
  else ({ s with waitmask := Function.update s.waitmask t 0 }, [], some E_OK)

/-- `_tk_ter_tsk`; `_ter_tsk` cancels the wait. -/
def tkTerTsk (t : Tsk) (chk : ER) : FlgResult :=
  if chk ≠ E_OK then (s, [], some chk)
  else if t ∈ s.wait_queue then
    let r := s.endWait t none
    (r.1, r.2, some E_OK)
  else (s, [], some E_OK)

/-- `change_task_priority`; only tasks that wait for a `TA_TPRI` event flag have a hook. -/
def changeTaskPriority (t : Tsk) (priority : ℕ) : Flgcb :=
  let s := { s with priority := Function.update s.priority t priority }
  if t ∈ s.wait_queue ∧ s.flgatr &&& TA_TPRI ≠ 0 then s.flgChgPri t else s

/-- `_tk_chg_pri`, and changes of priorities through mutexes. -/
def tkChgPri (t : Tsk) (priority : ℕ) (chk : ER) : FlgResult :=
  if chk ≠ E_OK then (s, [], some chk) else (s.changeTaskPriority t priority, [], some E_OK)

end Flgcb

/-! ## Runs -/

inductive FlgOp
  | setFlg (idOk : Bool) (prot : ER) (setptn : BitVec 32)
  | clrFlg (idOk : Bool) (prot : ER) (clrptn : BitVec 32)
  | waiFlg (self : Tsk) (idOk ddsp : Bool) (prot : ER) (waiptn wfmode : BitVec 32) (tmout : ℤ)
  | timeout (t : Tsk)
  | relWai (t : Tsk) (chk : ER)
  | disWai (t : Tsk) (waitmask : ℕ) (chk : ER) (elsewhere : ℤ)
  | enaWai (t : Tsk) (chk : ER)
  | terTsk (t : Tsk) (chk : ER)
  | chgPri (t : Tsk) (priority : ℕ) (chk : ER)
  deriving DecidableEq, Repr

def FlgOp.exec (s : Flgcb) : FlgOp → FlgResult
  | setFlg idOk prot setptn => s.tkSetFlg idOk prot setptn
  | clrFlg idOk prot clrptn => s.tkClrFlg idOk prot clrptn
  | waiFlg self idOk ddsp prot waiptn wfmode tmout =>
    s.tkWaiFlg self idOk ddsp prot waiptn wfmode tmout
  | timeout t => s.waitReleaseTmout t
  | relWai t chk => s.tkRelWai t chk
  | disWai t waitmask chk elsewhere => s.tkDisWai t waitmask chk elsewhere
  | enaWai t chk => s.tkEnaWai t chk
  | terTsk t chk => s.tkTerTsk t chk
  | chgPri t priority chk => s.tkChgPri t priority chk

/-- A task that waits makes no call. -/
def FlgOp.Legal (s : Flgcb) : FlgOp → Prop
  | waiFlg self _ _ _ _ _ _ => self ∉ s.wait_queue
  | _ => True

/-- The states an event flag reaches from its creation. -/
inductive FlgRun : Flgcb → Prop
  | create {rsatrOk : Bool} {prot : ER} {flgatr : ℕ} {iflgptn : BitVec 32} {s₀ s : Flgcb}
      (h : tkCreFlg rsatrOk prot flgatr iflgptn s₀ = .ok s) : FlgRun s
  | step {s : Flgcb} (op : FlgOp) (run : FlgRun s) (legal : op.Legal s) : FlgRun (op.exec s).1

end SmpTKernel
