import SmpTKernel.AreaQueue
import SmpTKernel.WaitQueue

/-!
# Variable size memory pools

`mempool.c`: blocks are taken from a heap of areas; tasks that find no free area wait and are served
when one is released. `AREA_USE` is the only flag, and it is also set in `areaque` and in the end
marker. The pool is one control block in the middle of memory; sizes are `INT`.
-/

namespace SmpTKernel

open LinkRing Words

/-- `roundSize`. -/
def roundSize (sz : ℤ) : ℤ :=
  let sz := if sz < MIN_FRAGMENT then (MIN_FRAGMENT : ℤ) else sz
  INT (clearLow 32 3 ((UINT sz + (QUEUESZ - 1)) % 2 ^ 32))

/-- `winfo.mpl` of a waiting task, with the size it asked for. -/
structure WinfoMpl where
  blksz : ℤ
  asked : ℤ
  deriving DecidableEq, Repr

/-- The memory pool control block, the memory and the fields of the tasks it works with. -/
structure Mplcb where
  wait_queue : List Tsk
  mplatr : ℕ
  mplsz : ℤ
  /-- Address of the member `areaque`, which `freeque` follows. -/
  areaque : ℕ
  mem : Mem
  priority : Tsk → ℕ
  waitmask : Tsk → ℕ
  mpl : Tsk → WinfoMpl

/-- What happens to calls and blocks. -/
inductive MplEvent
  /-- The call returns `E_OK` with this block. -/
  | got (t : Tsk) (asked : ℤ) (blk : ℕ)
  | released (blk : ℕ)
  | getFails (t : Tsk) (ercd : ER)
  | relFails (ercd : ER)
  deriving DecidableEq, Repr

variable (s : Mplcb)

/-- The parameters of the shared routines. -/
def Mplcb.cfg : AreaCfg where
  areaque := s.areaque
  freeque := s.areaque + QUEUESZ
  bits := 1
  toSize := id
  quarter := s.mplsz.tdiv 4

/-- Maximum free area size. -/
def maxFreeSize : ℤ :=
  if isQueEmpty s.cfg.freeque s.mem then 0 else freeSize s.cfg s.mem (s.mem s.cfg.freeque).prev

/-- Get memory block; `none` is `NULL`. -/
def getBlk (blksz : ℤ) : Option ℕ × Mplcb :=
  let q := searchFreeArea s.cfg s.mem blksz
  if q = s.cfg.freeque then (none, s)
  else
    let mem := removeFreeQue s.mem q
    let aq := q - QUEUESZ
    let (blk, mem) := memAlloc s.cfg mem aq blksz
    (some blk, { s with mem := mem })

/-- Free memory block. -/
def relBlk (blk : ℕ) : ER × Mplcb :=
  let aq := blk - QUEUESZ
  if !chkAreaFlag s.mem aq AREA_USE then (E_PAR, s)
  else
    let mem := clrAreaFlag s.mem aq AREA_USE
    let mem := mergeNext s.cfg mem aq AREA_USE
    let (aq, mem) := mergePrev s.cfg mem aq 0
    (E_OK, { s with mem := appendFreeArea s.cfg mem aq })

/-- Memory pool initial setting. -/
def initMempool (mempool : ℕ) (mempsz : ℤ) : Mplcb :=
  let mem := queInit s.cfg.areaque s.mem
  let mem := queInit s.cfg.freeque mem
  let tp := mempool
  let ep := mempool + mempsz.toNat - QUEUESZ
  let mem := insertAreaQue s.cfg mem s.cfg.areaque ep
  let mem := insertAreaQue s.cfg mem s.cfg.areaque tp
  let mem := setAreaFlag mem s.cfg.areaque AREA_USE
  let mem := setAreaFlag mem ep AREA_USE
  { s with mem := appendFreeArea s.cfg mem tp }

/-- `mpl_wakeup`, with the tasks left in the wait queue as argument: allocate memory and release the
waiting tasks, as long as there is enough free memory. -/
def mplWakeupLoop (s : Mplcb) : List Tsk → Mplcb × List MplEvent
  | [] => ({ s with wait_queue := [] }, [])
  | top :: queue =>
    let w := s.mpl top
    if w.blksz > maxFreeSize s then ({ s with wait_queue := top :: queue }, [])
    else
      let (blk, s) := getBlk s w.blksz
      let (s, ev) := mplWakeupLoop s queue
      (s, .got top w.asked (blk.getD 0) :: ev)

def mplWakeup : Mplcb × List MplEvent := mplWakeupLoop s s.wait_queue

/-- Processing if the priority of a waiting task changes (`oldpri >= 0`) or its wait ends. -/
def mplChgPri (t : Tsk) (oldpri : ℤ) : Mplcb × List MplEvent :=
  mplWakeup
    (if oldpri ≥ 0 then { s with wait_queue := gcbChangePriority s.priority t s.wait_queue } else s)

def mplRelWai (t : Tsk) : Mplcb × List MplEvent := mplChgPri s t (-1)

/-! ## System calls -/

/-- The end of `_tk_cre_mpl`: `mempool` is what `IAmalloc` returned for `mplsz` bytes and two
cells. -/
def tkCreMpl (s : Mplcb) (mplatr : ℕ) (mplsz : ℤ) (mempool : ℕ) : Mplcb :=
  let mplsz := roundSize mplsz
  let s := { s with wait_queue := [], mplatr := mplatr, mplsz := mplsz }
  initMempool s mempool (mplsz + (QUEUESZ : ℤ) * 2)

/-- `ddsp` and `prot` are the results of the dispatch check and of the existence and protection
checks. -/
def tkGetMpl (ddsp : Bool) (prot : ER) (self : Tsk) (asked tmout : ℤ) : Mplcb × List MplEvent :=
  if ¬asked > 0 then (s, [.getFails self E_PAR])
  else if ¬tmout ≥ TMO_FEVR then (s, [.getFails self E_PAR])
  else if ddsp then (s, [.getFails self E_CTX])
  else
    let blksz := roundSize asked
    if prot ≠ E_OK then (s, [.getFails self prot])
    else if blksz > s.mplsz then (s, [.getFails self E_PAR])
    else if isDiswai s.mplatr (s.waitmask self) TTW_MPL then (s, [.getFails self E_DISWAI])
    else
      match
        if gcbTopOfWaitQueue s.mplatr s.priority self s.wait_queue = self then getBlk s blksz
        else (none, s)
      with
      | (some blk, s) => (s, [.got self asked blk])
      | (none, s) =>
        -- ready for wait
        let s := { s with mpl := Function.update s.mpl self ⟨blksz, asked⟩ }
        if isDiswai s.mplatr (s.waitmask self) TTW_MPL then (s, [.getFails self E_DISWAI])
        else if tmout = TMO_POL then (s, [.getFails self E_TMOUT])
        else ({ s with wait_queue := gcbInsert s.mplatr s.priority self s.wait_queue }, [])

def tkRelMpl (ddsp : Bool) (prot : ER) (blk : ℕ) : Mplcb × List MplEvent :=
  if ddsp then (s, [.relFails E_CTX])
  else if prot ≠ E_OK then (s, [.relFails prot])
  else if blk < (s.mem s.areaque).next ∨ blk > (s.mem s.areaque).prev then (s, [.relFails E_PAR])
  else
    let (ercd, s) := relBlk s blk
    if ercd < E_OK then (s, [.relFails ercd])
    else
      let (s, ev) := mplWakeup s
      (s, .released blk :: ev)

/-- The wait of a task ends with an error: it leaves the queue and its release hook runs. -/
def releaseWaiter (t : Tsk) (ercd : ER) : Mplcb × List MplEvent :=
  let (s, ev) := mplRelWai { s with wait_queue := s.wait_queue.erase t } t
  (s, .getFails t ercd :: ev)

/-- `_ter_tsk` on a task that waits here. -/
def terminateWaiter (t : Tsk) : Mplcb × List MplEvent :=
  mplRelWai { s with wait_queue := s.wait_queue.erase t } t

/-- `change_task_priority`; only tasks that wait for a `TA_TPRI` pool have a hook. -/
def chgWaiterPri (t : Tsk) (priority : ℕ) : Mplcb × List MplEvent :=
  let oldpri := s.priority t
  let s := { s with priority := Function.update s.priority t priority }
  if t ∈ s.wait_queue ∧ s.mplatr &&& TA_TPRI ≠ 0 then mplChgPri s t oldpri else (s, [])

end SmpTKernel
