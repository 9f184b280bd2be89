import SmpTKernel.WaitQueue
import SmpTKernel.Lib.Histories

/-!
# Mailboxes

`mailbox.c`: the packets that were sent and not yet received form a list through their own first
words, which begins in the control block. A packet is its address. The state is the control block,
the packets and what the tasks contribute; who receives which packet is recorded as events. A value
that a call returns at once is the last component of the result; the search for the place of a
packet has a number of turns.
-/

namespace SmpTKernel

/-- Manage messages by priority order. -/
abbrev TA_MPRI : ℕ := 0x00000002

/-- Mailbox control block, the packets and the fields of the tasks it works with. -/
structure Mbxcb where
  wait_queue : List Tsk
  mbxatr : ℕ
  /-- `mq_head.msgque[0]` -/
  headmsg : ℕ
  /-- Only meaningful while there is a packet. -/
  mq_tail : ℕ
  /-- `((T_MSG *)msg)->msgque[0]` -/
  msgque : ℕ → ℕ
  /-- `((T_MSG_PRI *)msg)->msgpri` -/
  msgpri : ℕ → ℤ
  priority : Tsk → ℕ
  waitmask : Tsk → ℕ
  nodiswai : Tsk → Bool

/-- What happens to packets and waits. -/
inductive MbxEvent
  | sent (pk_msg : ℕ) (msgpri : ℤ)
  | received (t : Tsk) (pk_msg : ℕ)
  /-- A wait ends without a packet, with an error or with its task. -/
  | waitEnds (t : Tsk) (ercd : Option ER)
  deriving DecidableEq, Repr

abbrev MbxResult := Mbxcb × List MbxEvent × Option ℤ

/-- `_tk_cre_mbx`: the error, or the new control block. -/
def tkCreMbx (chk : ER) (mbxatr : ℕ) (s : Mbxcb) : Except ER Mbxcb :=
  if chk ≠ E_OK then .error chk
  else
    .ok { s with
      wait_queue := []
      mbxatr := mbxatr
      headmsg := nullPtr }

namespace Mbxcb

variable (s : Mbxcb)

/-- `nextmsg(msg)`, where `none` is `&mbxcb->mq_head`. -/
def nextmsg : Option ℕ → ℕ
  | none => s.headmsg
  | some msg => s.msgque msg

/-- `nextmsg(msg) = next` -/
def setNextmsg (msg : Option ℕ) (next : ℕ) : Mbxcb :=
  match msg with
  | none => { s with headmsg := next }
  | some msg => { s with msgque := Function.update s.msgque msg next }

/-- Insert a message queue following priority, from `prevmsg` on. -/
def queueInsertMpri (pk_msg : ℕ) : Option ℕ → ℕ → Option Mbxcb
  | _, 0 => none
  | prevmsg, turns + 1 =>
    let msg := s.nextmsg prevmsg
    if msg ≠ nullPtr ∧ ¬s.msgpri msg > s.msgpri pk_msg then queueInsertMpri pk_msg (some msg) turns
    else some ((s.setNextmsg (some pk_msg) msg).setNextmsg prevmsg pk_msg)

/-- Connect to end of queue. -/
def connectLast (pk_msg : ℕ) : Mbxcb :=
  let s := s.setNextmsg (some pk_msg) nullPtr
  let s :=
    if s.headmsg = nullPtr then s.setNextmsg none pk_msg else s.setNextmsg (some s.mq_tail) pk_msg
  { s with mq_tail := pk_msg }

/-- `mbx_chg_pri`. -/
def mbxChgPri (t : Tsk) : Mbxcb :=
  { s with wait_queue := gcbChangePriority s.priority t s.wait_queue }

/-! ## System calls

`idOk` says that the identifier is in its range, `prot` is the result of the checks of existence,
domain and protection, `ddsp` says that dispatching is disabled. -/

def tkSndMbx (idOk : Bool) (prot : ER) (pk_msg : ℕ) (turns : ℕ) : Option MbxResult :=
  if !idOk then some (s, [], some E_ID)
  else if prot ≠ E_OK then some (s, [], some prot)
  else if s.mbxatr &&& TA_MPRI ≠ 0 ∧ s.msgpri pk_msg ≤ 0 then some (s, [], some E_PAR)
  else
    match s.wait_queue with
    | tcb :: queue =>
      -- directly send to receive wait task
      some ({ s with wait_queue := queue }, [.sent pk_msg (s.msgpri pk_msg), .received tcb pk_msg],
        some E_OK)
    | [] =>
      -- connect message to queue
      let s' :=
        if s.mbxatr &&& TA_MPRI ≠ 0 then s.queueInsertMpri pk_msg none turns
        else some (s.connectLast pk_msg)
      s'.map fun s' => (s', [.sent pk_msg (s.msgpri pk_msg)], some E_OK)

/-- The part of `gcb_make_wait_with_diswai` that waits. -/
def makeWait (self : Tsk) : Mbxcb :=
  { s with
    wait_queue := gcbInsert s.mbxatr s.priority self s.wait_queue
    nodiswai := Function.update s.nodiswai self (s.mbxatr &&& TA_NODISWAI ≠ 0) }

def tkRcvMbx (self : Tsk) (idOk ddsp : Bool) (prot : ER) (tmout : ℤ) : MbxResult :=
  if !idOk then (s, [], some E_ID)
  else if ¬tmout ≥ TMO_FEVR then (s, [], some E_PAR)
  else if ddsp then (s, [], some E_CTX)
  else if prot ≠ E_OK then (s, [], some prot)
  else if isDiswai s.mbxatr (s.waitmask self) TTW_MBX then (s, [], some E_DISWAI)
  else if s.headmsg ≠ nullPtr then
    -- get message from head of queue
    (s.setNextmsg none (s.msgque s.headmsg), [.received self s.headmsg], some E_OK)
  else
    -- ready for receive wait
    if isDiswai s.mbxatr (s.waitmask self) TTW_MBX then (s, [], some E_DISWAI)
    else if tmout = TMO_POL then (s, [], some E_TMOUT)
    else (s.makeWait self, [], none)

/-! ## The end of a wait -/

/-- The wait of a task ends with an error, or (`none`) with its task. -/
def endWait (t : Tsk) (ercd : Option ER) : Mbxcb × List MbxEvent :=
  ({ s with wait_queue := s.wait_queue.erase t }, [.waitEnds t ercd])

/-- `wait_release_tmout`, for a task in this queue. -/
def waitReleaseTmout (t : Tsk) : MbxResult :=
  if t ∈ s.wait_queue then ((s.endWait t (some E_TMOUT)).1, (s.endWait t (some E_TMOUT)).2, none)
  else (s, [], none)

/-- `_tk_rel_wai`; `chk` is the result of its checks. -/
def tkRelWai (t : Tsk) (chk : ER) : MbxResult :=
  if chk ≠ E_OK then (s, [], some chk)
  else if t ∈ s.wait_queue then
    let r := s.endWait t (some E_RLWAI)
    (r.1, r.2, some E_OK)
  else (s, [], some E_OK)

/-- `_tk_dis_wai`; `elsewhere` is its result for a task that does not wait here. -/
def tkDisWai (t : Tsk) (waitmask : ℕ) (chk : ER) (elsewhere : ℤ) : MbxResult :=
  if chk ≠ E_OK then (s, [], some chk)
  else
    let s := { s with waitmask := Function.update s.waitmask t waitmask }
    if t ∈ s.wait_queue then
      if TTW_MBX &&& waitmask ≠ 0 ∧ !s.nodiswai t then
        let r := s.endWait t (some E_DISWAI)
        (r.1, r.2, some 0)
      else (s, [], some TTW_MBX)
    else (s, [], some elsewhere)

/-- `_tk_ena_wai`. -/
def tkEnaWai (t : Tsk) (chk : ER) : MbxResult :=
  if chk ≠ E_OK then (s, [], some chk)
  else ({ s with waitmask := Function.update s.waitmask t 0 }, [], some E_OK)

/-- `_tk_ter_tsk`; `_ter_tsk` cancels the wait. -/
def tkTerTsk (t : Tsk) (chk : ER) : MbxResult :=
  if chk ≠ E_OK then (s, [], some chk)
  else if t ∈ s.wait_queue then
    let r := s.endWait t none
    (r.1, r.2, some E_OK)
  else (s, [], some E_OK)

/-- `change_task_priority`; only tasks that wait for a `TA_TPRI` mailbox have a hook. -/
def changeTaskPriority (t : Tsk) (priority : ℕ) : Mbxcb :=
  let s := { s with priority := Function.update s.priority t priority }
  if t ∈ s.wait_queue ∧ s.mbxatr &&& TA_TPRI ≠ 0 then s.mbxChgPri t else s

/-- `_tk_chg_pri`, and changes of priorities through mutexes. -/
def tkChgPri (t : Tsk) (priority : ℕ) (chk : ER) : MbxResult :=
  if chk ≠ E_OK then (s, [], some chk) else (s.changeTaskPriority t priority, [], some E_OK)

end Mbxcb

/-! ## Runs -/

inductive MbxOp
  | sndMbx (idOk : Bool) (prot : ER) (pk_msg : ℕ)
  | rcvMbx (self : Tsk) (idOk ddsp : Bool) (prot : ER) (tmout : ℤ)
  | timeout (t : Tsk)
  | relWai (t : Tsk) (chk : ER)
  | disWai (t : Tsk) (waitmask : ℕ) (chk : ER) (elsewhere : ℤ)
  | enaWai (t : Tsk) (chk : ER)
  | terTsk (t : Tsk) (chk : ER)
  | chgPri (t : Tsk) (priority : ℕ) (chk : ER)
  /-- The owners of packets that are not queued use them. -/
  | write (msgque : ℕ → ℕ) (msgpri : ℕ → ℤ)

def MbxOp.exec (s : Mbxcb) (turns : ℕ) : MbxOp → Option MbxResult
  | sndMbx idOk prot pk_msg => s.tkSndMbx idOk prot pk_msg turns
  | rcvMbx self idOk ddsp prot tmout => some (s.tkRcvMbx self idOk ddsp prot tmout)
  | timeout t => some (s.waitReleaseTmout t)
  | relWai t chk => some (s.tkRelWai t chk)
  | disWai t waitmask chk elsewhere => some (s.tkDisWai t waitmask chk elsewhere)
  | enaWai t chk => some (s.tkEnaWai t chk)
  | terTsk t chk => some (s.tkTerTsk t chk)
  | chgPri t priority chk => some (s.tkChgPri t priority chk)
  | write msgque msgpri =>
    some ({ s with
      msgque := msgque
      msgpri := msgpri }, [], none)

/-- A packet on its way, with the priority it had when it was sent. -/
structure Packet where
  pk_msg : ℕ
  msgpri : ℤ
  deriving DecidableEq, Repr

/-- The packets that are sent and not yet received, after another event. -/
def MbxEvent.track (pending : List Packet) : MbxEvent → List Packet
  | sent pk_msg msgpri => pending ++ [⟨pk_msg, msgpri⟩]
  | received _ pk_msg => pending.eraseP (·.pk_msg = pk_msg)
  | waitEnds .. => pending

/-- The packets that are sent and not yet received, in the order in which they were sent. -/
def pendingPackets (log : List MbxEvent) : List Packet := History.summary MbxEvent.track [] log

/-- A task that waits makes no call; a packet that is queued is not sent again and left alone. -/
def MbxOp.Legal (s : Mbxcb) (pending : List Packet) : MbxOp → Prop
  | sndMbx _ _ pk_msg => pk_msg ≠ nullPtr ∧ pk_msg ∉ pending.map Packet.pk_msg
  | rcvMbx self _ _ _ _ => self ∉ s.wait_queue
  | write msgque msgpri =>
    ∀ msg ∈ pending.map Packet.pk_msg, msgque msg = s.msgque msg ∧ msgpri msg = s.msgpri msg
  | _ => True

/-- The states a mailbox reaches from its creation, with their histories. -/
inductive MbxRun (mbxatr : ℕ) : Mbxcb → List MbxEvent → Prop
  | create {chk : ER} {s₀ s : Mbxcb} (h : tkCreMbx chk mbxatr s₀ = .ok s) : MbxRun mbxatr s []
  | step {s : Mbxcb} {log : List MbxEvent} {r : MbxResult} (op : MbxOp) (turns : ℕ)
      (run : MbxRun mbxatr s log) (legal : op.Legal s (pendingPackets log))
      (h : op.exec s turns = some r) : MbxRun mbxatr r.1 (log ++ r.2.1)

end SmpTKernel
