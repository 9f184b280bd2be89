import SmpTKernel.Task
import SmpTKernel.Lib.Fuel

/-!
# The timer queue

`timer.c` and the part of `wait.c` that uses it. Timer events lie in a queue in the order of their
times; the timer handler takes off those whose time has been reached and starts their callbacks. The
block of an event has one `QUEUE` cell, which is in the timer queue or in the queue of a processor's
pending handlers.
-/

namespace SmpTKernel

open LinkRing

/-! ## `longlong.h` -/

/-- `(longlong)x`. -/
def longlong (x : ℤ) : ℤ := Words.toSigned 64 (Words.toUnsigned 64 x)

def llAdd (a b : ℤ) : ℤ := longlong (a + b)

def llSub (a b : ℤ) : ℤ := longlong (a - b)

/-- `ll_cmp`: positive, zero or negative as `a` is larger than, equal to or smaller than `b`. -/
def llCmp (a b : ℤ) : ℤ := longlong (a - b)

def luiDiv (a : ℤ) (b : ℕ) : ℤ := longlong (a.tdiv b)

def luiMul (a : ℤ) (b : ℕ) : ℤ := longlong (a * b)

theorem longlong_eq {x : ℤ} (h : -2 ^ 63 ≤ x) (h' : x < 2 ^ 63) : longlong x = x := by
  unfold longlong Words.toSigned Words.toUnsigned
  split_ifs <;> omega

/-! ## Timer event blocks -/

/-- A `TMEB *`. -/
inductive Tmeb
  /-- `&tcb->wtmeb` -/
  | wtmeb (t : Tsk)
  /-- `&cyccb->cyctmeb` -/
  | cyctmeb (i : ℕ)
  /-- `&almcb->almtmeb` -/
  | almtmeb (i : ℕ)
  deriving DecidableEq, Repr

/-- A queue of timer event blocks. -/
inductive TimerQue
  | timerQueue
  /-- `handler_queue[prid].hdrque` -/
  | hdrque (prid : ℕ)
  deriving DecidableEq, Repr

/-- A `QUEUE *` of these queues. -/
inductive TimerNode
  | que (h : TimerQue)
  /-- `&event->queue`, which is also `(QUEUE *)event`. -/
  | tmeb (event : Tmeb)
  deriving DecidableEq, Repr

/-- The callback functions of the kernel. -/
inductive Cback
  | waitReleaseTmout
  | distributeCychdr
  | callCychdr
  | distributeAlmhdr
  | callAlmhdr
  deriving DecidableEq, Repr

/-- `HDRQUE` without its queue. -/
structure Hdrque where
  upd : Bool
  act : Bool
  deriving DecidableEq, Repr

/-- The memory the timer routines work on. The argument of a callback is the number of its control
block. -/
structure Timer where
  current_time : ℤ
  que : Links TimerNode
  time : Tmeb → ℤ
  callback : Tmeb → Option Cback
  arg : Tmeb → ℕ
  handler_queue : ℕ → Hdrque

/-- `event->callback = callback; event->arg = arg;` -/
def Timer.setCallback (s : Timer) (event : Tmeb) (callback : Option Cback) (arg : ℕ) : Timer :=
  { s with
    callback := Function.update s.callback event callback
    arg := Function.update s.arg event arg }

def Timer.setTime (s : Timer) (event : Tmeb) (time : ℤ) : Timer :=
  { s with time := Function.update s.time event time }

/-! ## `timer.c` -/

abbrev MIN_TIMER_PERIOD : ℕ := 1

abbrev MAX_TIMER_PERIOD : ℕ := 50

/-- `handler_initialize`. -/
def handlerInitialize (s : Timer) : Timer :=
  (List.range MAX_PROC).foldl (fun s i =>
    { s with
      handler_queue := Function.update s.handler_queue i ⟨false, false⟩
      que := queInit (.que (.hdrque i)) s.que }) s

/-- `n` is the result of `_tk_get_cfn`, which reads `period`. -/
def timerInitialize (n : ℤ) (period : ℕ) (s : Timer) : ER × Timer :=
  if n < 1 ∨ period < MIN_TIMER_PERIOD ∨ period > MAX_TIMER_PERIOD then (E_SYS, s)
  else
    (E_OK, handlerInitialize
      { s with current_time := 0, que := queInit (.que .timerQueue) s.que })

variable (TIMER_PERIOD : ℕ)

/-- The loop of `enqueue_tmeb`, from `q` on: the entry that `event` goes before. -/
def enqueuePlace (s : Timer) (event : Tmeb) : ℕ → TimerNode → Option TimerNode
  | 0, _ => none
  | fuel + 1, q =>
    match q with
    | .que h => some (.que h)
    | .tmeb e =>
      if llCmp (s.time event) (s.time e) < 0 then some (.tmeb e)
      else enqueuePlace s event fuel (s.que (.tmeb e)).next

def enqueueTmeb (fuel : ℕ) (s : Timer) (event : Tmeb) : Option Timer :=
  (enqueuePlace s event fuel (s.que (.que .timerQueue)).next).map fun q =>
    { s with que := queInsert (.tmeb event) q s.que }

def timerInsert (fuel : ℕ) (s : Timer) (event : Tmeb) (tmout : ℤ) (callback : Option Cback)
    (arg : ℕ) : Option Timer :=
  let s := s.setCallback event callback arg
  if tmout = TMO_FEVR then some { s with que := queInit (.tmeb event) s.que }
  else
    -- to guarantee the wait time, one more tick
    enqueueTmeb fuel (s.setTime event (llAdd (llAdd s.current_time tmout) TIMER_PERIOD)) event

def timerInsertReltim (fuel : ℕ) (s : Timer) (event : Tmeb) (tmout : ℕ) (callback : Option Cback)
    (arg : ℕ) : Option Timer :=
  let s := s.setCallback event callback arg
  enqueueTmeb fuel (s.setTime event (llAdd (llAdd s.current_time tmout) TIMER_PERIOD)) event

/-- Register an event at an absolute system operation time. -/
def timerInsertAbs (fuel : ℕ) (s : Timer) (evt : Tmeb) (sotime : ℤ) (cback : Option Cback)
    (arg : ℕ) : Option Timer :=
  enqueueTmeb fuel ((s.setCallback evt cback arg).setTime evt sotime) evt

def timerDelete (s : Timer) (event : Tmeb) : Timer :=
  { s with que := queRemove (.tmeb event) s.que }

section Handler

variable {H : Type*} (call : Cback → ℕ → Timer × H → Option (Timer × H))

/-- Start the callback of an event. -/
def startEvent (event : Tmeb) (w : Timer × H) : Option (Timer × H) :=
  match w.1.callback event with
  | none => some w
  | some callback => call callback (w.1.arg event) w

/-- The loop of the timer handler: what becomes of each event taken off is up to `start`. -/
def expire (start : Tmeb → Timer × H → Option (Timer × H)) : ℕ → Timer × H → Option (Timer × H)
  | 0, _ => none
  | fuel + 1, w =>
    match (w.1.que (.que .timerQueue)).next with
    | .que _ => some w
    | .tmeb event =>
      if llCmp (w.1.time event) w.1.current_time > 0 then some w
      else (start event ({ w.1 with que := queRemove (.tmeb event) w.1.que }, w.2)).bind
        (expire start fuel)

/-- `timer_handler`. `slice` is the accounting of the running tasks and of their time slices,
`update` the update of the handler queues; they leave what the rest of the kernel keeps in `H`. -/
def timerHandler (slice : Timer → H → H) (start : Tmeb → Timer × H → Option (Timer × H))
    (update : Timer × H → Option (Timer × H)) (fuel : ℕ) (w : Timer × H) : Option (Timer × H) :=
  let s := { w.1 with current_time := llAdd w.1.current_time TIMER_PERIOD }
  (expire start fuel (s, slice s w.2)).bind update

end Handler

/-! ## `wait.c` -/

/-- The fields of a task control block that a wait writes. -/
structure WaitTcb where
  state : TaskState
  nodiswai : Bool
  deriving DecidableEq, Repr

/-- `make_non_wait`. -/
def makeNonWait (tcb : WaitTcb) : WaitTcb :=
  if tcb.state = .wait then { tcb with state := .ready } else { tcb with state := .suspend }

/-- The part of `make_wait` before the timer. -/
def enterWait (atr : ℕ) (tcb : WaitTcb) : WaitTcb where
  state :=
    match tcb.state with
    | .ready => .wait
    | .suspend => .waitsus
    | s => s
  nodiswai := atr &&& TA_NODISWAI ≠ 0

/-- `make_wait`, where `t` is the task in `ctxtsk[prid]`. -/
def makeWait (fuel : ℕ) (s : Timer) (tcb : Tsk → WaitTcb) (t : Tsk) (tmout : ℤ) (atr : ℕ) :
    Option (Timer × (Tsk → WaitTcb)) :=
  (timerInsert TIMER_PERIOD fuel s (.wtmeb t) tmout (some .waitReleaseTmout) t).map fun s =>
    (s, Function.update tcb t (enterWait atr (tcb t)))

def makeWaitReltim (fuel : ℕ) (s : Timer) (tcb : Tsk → WaitTcb) (t : Tsk) (tmout : ℕ) (atr : ℕ) :
    Option (Timer × (Tsk → WaitTcb)) :=
  (timerInsertReltim TIMER_PERIOD fuel s (.wtmeb t) tmout (some .waitReleaseTmout) t).map fun s =>
    (s, Function.update tcb t (enterWait atr (tcb t)))

/-- `wait_release`, apart from the queue of the object. -/
def waitRelease (s : Timer) (tcb : Tsk → WaitTcb) (t : Tsk) : Timer × (Tsk → WaitTcb) :=
  (timerDelete s (.wtmeb t), Function.update tcb t (makeNonWait (tcb t)))

/-- `wait_release_tmout`, apart from the queue of the object and its hook. -/
def waitReleaseTmout (tcb : Tsk → WaitTcb) (t : Tsk) : Tsk → WaitTcb :=
  Function.update tcb t (makeNonWait (tcb t))

end SmpTKernel
