import SmpTKernel.Lib.ByteRing
import SmpTKernel.WaitQueue

/-!
# Message buffers

`messagebuf.c`: messages lie in a ring of bytes, each behind a header with its length and rounded up
to the size of a header. A message goes into the ring, or straight to a task that waits to receive,
or stays with its sender, which then waits until the ring has room. The state is the control block
and what the tasks contribute; the history is recorded by the routines as events.
-/

namespace SmpTKernel

open ByteRing Words

/-- `winfo.smbf` of a task that waits to send, with the number of its call. -/
structure WinfoSmbf where
  msg : List UB
  msgsz : ℤ
  call : ℕ
  deriving DecidableEq, Repr

/-- The message buffer control block and the fields of the tasks it works with. -/
structure Mbfcb where
  send_queue : List Tsk
  mbfatr : ℕ
  recv_queue : List Tsk
  bufsz : ℤ
  maxmsz : ℤ
  frbufsz : ℤ
  head : ℤ
  tail : ℤ
  buffer : Bytes
  priority : Tsk → ℕ
  waitmask : Tsk → ℕ
  smbf : Tsk → WinfoSmbf

/-- What happens to calls and messages. -/
inductive MbfEvent
  /-- The send call with this number is made. -/
  | started (call : ℕ) (msg : List UB)
  /-- Its message is stored in the ring or handed to a receiver. -/
  | accepted (call : ℕ) (msg : List UB)
  | delivered (t : Tsk) (msg : List UB)
  /-- The result of the send call is set and the call goes on to return it. -/
  | sendEnds (call : ℕ) (ercd : ER)
  | receiveFails (t : Tsk) (ercd : ER)
  deriving DecidableEq, Repr

abbrev HEADERSZ : ℕ := 4
abbrev ROUNDSIZE : ℕ := 4

/-- `((UINT)sz + (ROUNDSIZE-1)) & ~(ROUNDSIZE-1)`. -/
def ROUNDSZ (sz : ℤ) : ℕ := clearLow 32 2 ((UINT sz + (ROUNDSIZE - 1)) % 2 ^ 32)

/-- `memcpy(&buffer[dst], src, n)`. -/
def memcpyTo (buffer : Bytes) (dst : ℤ) (src : List UB) (n : ℤ) : Bytes :=
  copy buffer dst.toNat (src.take n.toNat)

/-- The bytes read by `memcpy(_, &buffer[src], n)`. -/
def memcpyFrom (buffer : Bytes) (src n : ℤ) : List UB :=
  (List.range n.toNat).map fun i => buffer (src.toNat + i)

variable (s : Mbfcb)

/-- Check message buffer free space. -/
def mbfFree (msgsz : ℤ) : Bool := (HEADERSZ + UINT msgsz) % 2 ^ 32 ≤ UINT s.frbufsz

def mbfEmpty : Bool := s.frbufsz = s.bufsz

/-- Store the message to message buffer. -/
def msgToMbf (msg : List UB) (msgsz : ℤ) : Mbfcb :=
  let tail := s.tail
  let frbufsz := s.frbufsz - INT ((HEADERSZ + ROUNDSZ msgsz) % 2 ^ 32)
  let buffer := copy s.buffer tail.toNat (leBytes HEADERSZ (UINT msgsz))
  let tail := tail + HEADERSZ
  let tail := if tail ≥ s.bufsz then 0 else tail
  let remsz := s.bufsz - tail
  let split := remsz < msgsz
  let buffer := if split then memcpyTo buffer tail msg remsz else buffer
  let msg := if split then msg.drop remsz.toNat else msg
  let msgsz := if split then msgsz - remsz else msgsz
  let tail := if split then 0 else tail
  let buffer := memcpyTo buffer tail msg msgsz
  let tail := tail + INT (ROUNDSZ msgsz)
  let tail := if tail ≥ s.bufsz then 0 else tail
  { s with frbufsz := frbufsz, buffer := buffer, tail := tail }

/-- Get a message from message buffer. -/
def mbfToMsg : List UB × Mbfcb :=
  let head := s.head
  let msgsz := INT (ofLeBytes (memcpyFrom s.buffer head HEADERSZ))
  let frbufsz := s.frbufsz + INT ((HEADERSZ + ROUNDSZ msgsz) % 2 ^ 32)
  let head := head + HEADERSZ
  let head := if head ≥ s.bufsz then 0 else head
  let remsz := s.bufsz - head
  let split := remsz < msgsz
  let msg := if split then memcpyFrom s.buffer head remsz else []
  let msgsz := if split then msgsz - remsz else msgsz
  let head := if split then 0 else head
  let msg := msg ++ memcpyFrom s.buffer head msgsz
  let head := head + INT (ROUNDSZ msgsz)
  let head := if head ≥ s.bufsz then 0 else head
  (msg, { s with frbufsz := frbufsz, head := head })

/-- `mbf_wakeup`, with the tasks left in the send queue as argument: accept messages and release the
senders as long as there is room. -/
def mbfWakeupLoop (s : Mbfcb) : List Tsk → Mbfcb × List MbfEvent
  | [] => ({ s with send_queue := [] }, [])
  | top :: queue =>
    let w := s.smbf top
    if mbfFree s w.msgsz then
      let (s', ev) := mbfWakeupLoop (msgToMbf s w.msg w.msgsz) queue
      (s', .accepted w.call w.msg :: .sendEnds w.call E_OK :: ev)
    else ({ s with send_queue := top :: queue }, [])

def mbfWakeup : Mbfcb × List MbfEvent := mbfWakeupLoop s s.send_queue

/-- Processing if the priority of a waiting sender changes (`oldpri >= 0`) or its wait ends. -/
def mbfChgPri (t : Tsk) (oldpri : ℤ) : Mbfcb × List MbfEvent :=
  mbfWakeup
    (if oldpri ≥ 0 then { s with send_queue := gcbChangePriority s.priority t s.send_queue } else s)

def mbfRelWai (t : Tsk) : Mbfcb × List MbfEvent := mbfChgPri s t (-1)

/-! ## System calls -/

/-- What a call finds out about its surroundings: whether it comes from a task-independent part, in
which no task can wait, whether dispatching is impossible, and the result of the existence and
protection checks. -/
structure CallEnv where
  indp : Bool
  ddsp : Bool
  prot : ER
  indp_ddsp : indp = true → ddsp = true

def tkSndMbf (e : CallEnv) (self : Tsk) (call : ℕ) (msg : List UB) (msgsz tmout : ℤ) :
    Mbfcb × List MbfEvent :=
  if ¬msgsz > 0 then (s, [.sendEnds call E_PAR])
  else if ¬tmout ≥ TMO_FEVR then (s, [.sendEnds call E_PAR])
  else if tmout ≠ TMO_POL ∧ e.ddsp then (s, [.sendEnds call E_CTX])
  else if e.prot ≠ E_OK then (s, [.sendEnds call e.prot])
  else if msgsz > s.maxmsz then (s, [.sendEnds call E_PAR])
  else if !e.indp && isDiswai s.mbfatr (s.waitmask self) TTW_SMBF then
    (s, [.sendEnds call E_DISWAI])
  else
    match s.recv_queue with
    | t :: queue =>
      -- send directly to the receive wait task
      let got := msg.take msgsz.toNat
      ({ s with recv_queue := queue },
        [.accepted call got, .delivered t got, .sendEnds call E_OK])
    | [] =>
      if (e.indp || gcbTopOfWaitQueue s.mbfatr s.priority self s.send_queue == self) &&
          mbfFree s msgsz then
        (msgToMbf s msg msgsz, [.accepted call (msg.take msgsz.toNat), .sendEnds call E_OK])
      else if tmout = TMO_POL then (s, [.sendEnds call E_TMOUT])
      else
        -- ready for send wait
        let s := { s with smbf := Function.update s.smbf self ⟨msg, msgsz, call⟩ }
        if isDiswai s.mbfatr (s.waitmask self) TTW_SMBF then (s, [.sendEnds call E_DISWAI])
        else ({ s with send_queue := gcbInsert s.mbfatr s.priority self s.send_queue }, [])

def tkRcvMbf (e : CallEnv) (self : Tsk) (tmout : ℤ) : Mbfcb × List MbfEvent :=
  if ¬tmout ≥ TMO_FEVR then (s, [.receiveFails self E_PAR])
  else if e.ddsp then (s, [.receiveFails self E_CTX])
  else if e.prot ≠ E_OK then (s, [.receiveFails self e.prot])
  else if isDiswai s.mbfatr (s.waitmask self) TTW_RMBF then (s, [.receiveFails self E_DISWAI])
  else if !mbfEmpty s then
    let (msg, s) := mbfToMsg s
    let (s, ev) := mbfWakeup s
    (s, .delivered self msg :: ev)
  else
    match s.send_queue with
    | t :: queue =>
      -- receive directly from the send wait task
      let w := s.smbf t
      let got := w.msg.take w.msgsz.toNat
      let (s, ev) := mbfWakeup { s with send_queue := queue }
      (s, .accepted w.call got :: .delivered self got :: .sendEnds w.call E_OK :: ev)
    | [] =>
      if tmout = TMO_POL then (s, [.receiveFails self E_TMOUT])
      else ({ s with recv_queue := s.recv_queue ++ [self] }, [])

/-- The wait of a sender ends with an error (`wait_release_ng`, `wait_release_tmout`): it leaves the
queue and its release hook runs. -/
def releaseSender (t : Tsk) (ercd : ER) : Mbfcb × List MbfEvent :=
  let (s', ev) := mbfRelWai { s with send_queue := s.send_queue.erase t } t
  (s', .sendEnds (s.smbf t).call ercd :: ev)

/-- The wait of a receiver ends with an error. -/
def releaseReceiver (t : Tsk) (ercd : ER) : Mbfcb × List MbfEvent :=
  ({ s with recv_queue := s.recv_queue.erase t }, [.receiveFails t ercd])

/-- `_ter_tsk` on a task that waits here: `wait_cancel` and the release hook; its call never
returns. -/
def terminateSender (t : Tsk) : Mbfcb × List MbfEvent :=
  mbfRelWai { s with send_queue := s.send_queue.erase t } t

def terminateReceiver (t : Tsk) : Mbfcb × List MbfEvent :=
  ({ s with recv_queue := s.recv_queue.erase t }, [])

/-- `change_task_priority` on a task that waits here or does not; only senders in a `TA_TPRI` buffer
have a hook. -/
def chgPri (t : Tsk) (priority : ℕ) : Mbfcb × List MbfEvent :=
  let oldpri := s.priority t
  let s := { s with priority := Function.update s.priority t priority }
  if t ∈ s.send_queue ∧ s.mbfatr &&& TA_TPRI ≠ 0 then mbfChgPri s t oldpri else (s, [])

/-- `_tk_cre_mbf`: the new control block; `mem` is what the allocated memory holds. -/
def tkCreMbf (mbfatr : ℕ) (bufsz maxmsz : ℤ) (mem : Bytes) (priority waitmask : Tsk → ℕ)
    (smbf : Tsk → WinfoSmbf) : Mbfcb :=
  let bufsz := INT (ROUNDSZ bufsz)
  { send_queue := [], mbfatr := mbfatr, recv_queue := [], bufsz := bufsz, maxmsz := maxmsz,
    frbufsz := bufsz, head := 0, tail := 0, buffer := mem, priority := priority,
    waitmask := waitmask, smbf := smbf }

end SmpTKernel
