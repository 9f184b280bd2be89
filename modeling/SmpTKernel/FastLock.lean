import SmpTKernel.Semaphore
import SmpTKernel.Lib.Census

/-!
# High-speed exclusive control locks

`fastlock.c`: a counter is changed without a lock by the routines of `libatomic`, and only a task
that finds others at the lock, or leaves some there, calls the kernel. Every call and every atomic
operation is one step; the tasks take their steps in any order.
-/

namespace SmpTKernel

open Census

/-! ## `libatomic` -/

/-- `atomic_inc`, which returns the new value. -/
def atomicInc (x : BitVec 32) : BitVec 32 := x + 1

/-- `atomic_dec`, which returns the new value. -/
def atomicDec (x : BitVec 32) : BitVec 32 := x - 1

/-- The value `atomic_bitset` stores; it returns the old one. -/
def atomicBitset (x setptn : BitVec 32) : BitVec 32 := x ||| setptn

/-- The value `atomic_bitclr` stores. -/
def atomicBitclr (x clrptn : BitVec 32) : BitVec 32 := x &&& clrptn

theorem toInt_atomicInc {x : BitVec 32} (h : x.toInt ≠ 2 ^ 31 - 1) :
    (atomicInc x).toInt = x.toInt + 1 := by
  have hlt := BitVec.toInt_lt (x := x)
  have hle := BitVec.le_toInt x
  have h1 : (1 : BitVec 32).toInt = 1 := by decide
  rw [atomicInc, BitVec.toInt_add, h1]
  exact Int.bmod_eq_of_le (by omega) (by omega)

theorem toInt_atomicDec {x : BitVec 32} (h : x.toInt ≠ -2 ^ 31) :
    (atomicDec x).toInt = x.toInt - 1 := by
  have hlt := BitVec.toInt_lt (x := x)
  have hle := BitVec.le_toInt x
  have h1 : (1 : BitVec 32).toInt = 1 := by decide
  rw [atomicDec, BitVec.toInt_sub, h1]
  exact Int.bmod_eq_of_le (by omega) (by omega)

/-! ## The lock -/

/-- Where a task is. -/
inductive LockPos
  | outside
  /-- `Inc` has returned a positive value, `tk_wai_sem` is called next. -/
  | waiSem
  /-- In the wait of `tk_wai_sem`. -/
  | blocked
  /-- `Lock` has returned. -/
  | locked
  /-- `Dec` has returned a positive value, `tk_sig_sem` is called next. -/
  | sigSem
  deriving DecidableEq, Repr

/-- A lock with its semaphore, and the tasks that use it. -/
structure FastLock where
  cnt : BitVec 32
  /-- The semaphore `id`. -/
  sem : Semcb
  pos : Tsk → LockPos

/-- Create high-speed lock: `CreateLock`. -/
def createLock (prot : ER) (s₀ : Semcb) : Except ER FastLock :=
  (tkCreSem true prot (TA_TPRI ||| TA_NODISWAI) 0 1 s₀).map fun sem => ⟨-1, sem, fun _ => .outside⟩

/-- Where the end of a wait leaves a task. `Lock` does not look at the result of `tk_wai_sem`. -/
def lockReturns (pos : Tsk → LockPos) : SemEvent → Tsk → LockPos
  | .granted t _ => Function.update pos t .locked
  | .waitEnds t (some _) => Function.update pos t .locked
  | .waitEnds t none => Function.update pos t .outside
  | .signalled _ => pos

namespace FastLock

variable (s : FastLock)

/-- `Lock`: increment `cnt`. -/
def inc (t : Tsk) : FastLock :=
  let c := atomicInc s.cnt
  { s with
    cnt := c
    pos := Function.update s.pos t (if c.toInt > 0 then .waiSem else .locked) }

/-- `Lock`: the call of `tk_wai_sem`, which fails where a task cannot wait. -/
def waiSem (t : Tsk) (ddsp : Bool) : FastLock :=
  let r := s.sem.tkWaiSem t true ddsp E_OK 1 TMO_FEVR
  { s with
    sem := r.1
    pos := Function.update s.pos t (if r.2.2.isSome then .locked else .blocked) }

/-- `Unlock`: decrement `cnt`. -/
def dec (t : Tsk) : FastLock :=
  let c := atomicDec s.cnt
  { s with
    cnt := c
    pos := Function.update s.pos t (if c.toInt + 1 > 0 then .sigSem else .outside) }

/-- What `tk_sig_sem` in `Unlock` does and returns. -/
def signal : SemResult := s.sem.tkSigSem true E_OK 1

/-- `Unlock`: the call of `tk_sig_sem`. -/
def sigSem (t : Tsk) : FastLock :=
  { s with
    sem := s.signal.1
    pos := s.signal.2.1.foldl lockReturns (Function.update s.pos t .outside) }

/-- A call of the kernel that concerns the waits of tasks. -/
def kernel (op : SemOp) : FastLock :=
  let r := op.exec s.sem
  { s with
    sem := r.1
    pos := r.2.1.foldl lockReturns s.pos }

end FastLock

/-! ## Runs -/

inductive FastLockOp
  | inc (t : Tsk)
  | waiSem (t : Tsk) (ddsp : Bool)
  | dec (t : Tsk)
  | sigSem (t : Tsk)
  | kernel (op : SemOp)
  deriving DecidableEq, Repr

def FastLockOp.exec (s : FastLock) : FastLockOp → FastLock
  | inc t => s.inc t
  | waiSem t ddsp => s.waiSem t ddsp
  | dec t => s.dec t
  | sigSem t => s.sigSem t
  | kernel op => s.kernel op

/-- Tasks follow their programs. They are terminated while they wait, or do not use the lock; the
waits have no time limit, and nobody else calls for the semaphore. -/
def FastLockOp.Legal (s : FastLock) : FastLockOp → Prop
  | inc t => s.pos t = .outside
  | waiSem t _ => s.pos t = .waiSem
  | dec t => s.pos t = .locked
  | sigSem t => s.pos t = .sigSem
  | kernel op =>
    match op with
    | .relWai .. | .disWai .. | .enaWai .. | .chgPri .. => True
    | .terTsk t _ => s.pos t = .outside ∨ s.pos t = .blocked
    | .sigSem .. | .waiSem .. | .timeout _ => False

/-- The states a lock reaches by steps that all meet the condition `P`. -/
inductive FastLockRun (P : FastLock → FastLockOp → Prop) : FastLock → Prop
  | create {prot : ER} {s₀ : Semcb} {s : FastLock} (h : createLock prot s₀ = .ok s) :
      FastLockRun P s
  | step {s : FastLock} (op : FastLockOp) (run : FastLockRun P s) (legal : op.Legal s)
      (h : P s op) : FastLockRun P (op.exec s)

end SmpTKernel
