import SmpTKernel.EventFlag
import SmpTKernel.FastLock

/-!
# High-speed exclusive control multi-locks

`fastmlock.c`: 32 locks in the bits of one word. A task that finds its bit set waits for the same
bit of an event flag, and tests again when it is woken. The tasks that are in `MLockTmo` are counted
in `wai`; a task that releases a lock sets the bit of the event flag if there are any. Every atomic
operation, every look at `wai` and every call of the kernel is one step.
-/

namespace SmpTKernel

/-- `(UINT)(1 << no)`. -/
def lockBit (no : Fin 32) : BitVec 32 := BitVec.twoPow 32 no

/-- Where a task is; `no` is the number of the lock and `tmo` the time limit of the call. -/
inductive MLockPos
  | outside
  /-- About to test and set the bit; `woken` after a wait. -/
  | bts (no : Fin 32) (tmo : ℤ) (woken : Bool)
  /-- The bit was set, `tk_wai_flg` is called next. -/
  | waiFlg (no : Fin 32) (tmo : ℤ)
  /-- In the wait of `tk_wai_flg`. -/
  | blocked (no : Fin 32) (tmo : ℤ)
  /-- About to decrement `wai` and to return. -/
  | dec (ercd : ER)
  /-- `MUnlock` has cleared the bit and looks at `wai` next. -/
  | look (no : Fin 32)
  /-- Tasks are in `MLockTmo`, `tk_set_flg` is called next. -/
  | setFlg (no : Fin 32)
  deriving DecidableEq, Repr

/-- The locks with their event flag, and the tasks that use them. -/
structure FastMLock where
  wai : BitVec 32
  flg : BitVec 32
  /-- The event flag `id`. -/
  event : Flgcb
  pos : Tsk → MLockPos
  /-- The tasks that have set a bit, until they clear it. -/
  holders : Fin 32 → List Tsk

/-- Create multi-lock: `CreateMLock`. -/
def createMLock (prot : ER) (s₀ : Flgcb) : Except ER FastMLock :=
  (tkCreFlg true prot (TA_TPRI ||| TA_WMUL ||| TA_NODISWAI) 0 s₀).map fun event =>
    ⟨0, 0, event, fun _ => .outside, fun _ => []⟩

/-- `MLockTmo` goes on after `tk_wai_flg`. -/
def waiFlgReturns (no : Fin 32) (tmo : ℤ) (ercd : ER) : MLockPos :=
  if ercd < E_OK then .dec ercd else .bts no tmo true

/-- The end of a wait with the result `ercd`. -/
def endsWait (ercd : ER) : MLockPos → MLockPos
  | .blocked no tmo => waiFlgReturns no tmo ercd
  | pos => pos

/-- What the kernel does to waiting tasks. -/
def mlockReturns (pos : Tsk → MLockPos) : FlgEvent → Tsk → MLockPos
  | .released t _ => Function.update pos t (endsWait E_OK (pos t))
  | .waitEnds t (some ercd) => Function.update pos t (endsWait ercd (pos t))
  | .waitEnds t none => Function.update pos t .outside

namespace FastMLock

variable (s : FastMLock)

/-- `MLockTmo`: increment `wai`. -/
def inc (t : Tsk) (no : Fin 32) (tmo : ℤ) : FastMLock :=
  { s with
    wai := atomicInc s.wai
    pos := Function.update s.pos t (.bts no tmo false) }

/-- `MLockTmo`: bit test and set. -/
def bts (t : Tsk) (no : Fin 32) (tmo : ℤ) : FastMLock :=
  let b := s.flg &&& lockBit no
  let s := { s with flg := atomicBitset s.flg (lockBit no) }
  if b = 0 then
    { s with
      pos := Function.update s.pos t (.dec E_OK)
      holders := Function.update s.holders no (t :: s.holders no) }
  else { s with pos := Function.update s.pos t (.waiFlg no tmo) }

/-- `MLockTmo`: the call of `tk_wai_flg`. -/
def waiFlg (t : Tsk) (no : Fin 32) (tmo : ℤ) (ddsp : Bool) (prot : ER) : FastMLock :=
  let r := s.event.tkWaiFlg t true ddsp prot (lockBit no) (TWF_ORW ||| TWF_BITCLR) tmo
  { s with
    event := r.1
    pos := Function.update s.pos t (r.2.2.elim (.blocked no tmo) (waiFlgReturns no tmo)) }

/-- `MLockTmo`: decrement `wai`. -/
def dec (t : Tsk) : FastMLock :=
  { s with
    wai := atomicDec s.wai
    pos := Function.update s.pos t .outside }

/-- `MUnlock`: bit reset. -/
def br (t : Tsk) (no : Fin 32) : FastMLock :=
  { s with
    flg := atomicBitclr s.flg (~~~lockBit no)
    pos := Function.update s.pos t (.look no)
    holders := Function.update s.holders no ((s.holders no).erase t) }

/-- `MUnlock`: the look at `wai`. -/
def look (t : Tsk) (no : Fin 32) : FastMLock :=
  { s with pos := Function.update s.pos t (if s.wai = 0 then .outside else .setFlg no) }

/-- `MUnlock`: the call of `tk_set_flg`. -/
def setFlg (t : Tsk) (no : Fin 32) : FastMLock :=
  let r := s.event.tkSetFlg true E_OK (lockBit no)
  { s with
    event := r.1
    pos := r.2.1.foldl mlockReturns (Function.update s.pos t .outside) }

/-- A call of the kernel, or the timer, that concerns the waits of tasks. -/
def kernel (op : FlgOp) : FastMLock :=
  let r := op.exec s.event
  { s with
    event := r.1
    pos := r.2.1.foldl mlockReturns s.pos }

end FastMLock

/-! ## Runs -/

inductive MLockOp
  | inc (t : Tsk) (no : Fin 32) (tmo : ℤ)
  | bts (t : Tsk) (no : Fin 32) (tmo : ℤ)
  | waiFlg (t : Tsk) (no : Fin 32) (tmo : ℤ) (ddsp : Bool) (prot : ER)
  | dec (t : Tsk)
  | br (t : Tsk) (no : Fin 32)
  | look (t : Tsk) (no : Fin 32)
  | setFlg (t : Tsk) (no : Fin 32)
  | kernel (op : FlgOp)
  deriving DecidableEq, Repr

def MLockOp.exec (s : FastMLock) : MLockOp → FastMLock
  | inc t no tmo => s.inc t no tmo
  | bts t no tmo => s.bts t no tmo
  | waiFlg t no tmo ddsp prot => s.waiFlg t no tmo ddsp prot
  | dec t => s.dec t
  | br t no => s.br t no
  | look t no => s.look t no
  | setFlg t no => s.setFlg t no
  | kernel op => s.kernel op

/-- Tasks follow their programs, and unlock what they hold; they are named by positive numbers of
type `ID`, which has 32 bits. None is terminated inside, and nobody else calls for the event flag;
errors of the kernel are negative. -/
def MLockOp.Legal (s : FastMLock) : MLockOp → Prop
  | inc t _ _ => s.pos t = .outside ∧ t < 2 ^ 31
  | bts t no tmo => ∃ woken, s.pos t = .bts no tmo woken
  | waiFlg t no tmo _ prot => s.pos t = .waiFlg no tmo ∧ prot ≤ E_OK
  | dec t => ∃ ercd, s.pos t = .dec ercd
  | br t no => s.pos t = .outside ∧ t ∈ s.holders no
  | look t no => s.pos t = .look no
  | setFlg t no => s.pos t = .setFlg no
  | kernel op =>
    match op with
    | .timeout _ | .relWai .. | .disWai .. | .enaWai .. | .chgPri .. => True
    | .terTsk t _ => s.pos t = .outside
    | .setFlg .. | .clrFlg .. | .waiFlg .. => False

/-- The states the locks reach. -/
inductive MLockRun : FastMLock → Prop
  | create {prot : ER} {s₀ : Flgcb} {s : FastMLock} (h : createMLock prot s₀ = .ok s) : MLockRun s
  | step {s : FastMLock} (op : MLockOp) (run : MLockRun s) (legal : op.Legal s) :
      MLockRun (op.exec s)

end SmpTKernel
