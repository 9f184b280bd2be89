import SmpTKernel.WaitQueue

/-!
# Fixed size memory pools

`mempfix.c`: the blocks of a pool are of one size. Those that were never handed out lie behind
`unused`; the others that are free form a list through their first words. The state is the control
block, these words, and what the tasks contribute; who gets which block is recorded as events. A
value that a call returns at once is the last component of the result.
-/

namespace SmpTKernel

open Words

/-- `sizeof(FREEL)` -/
abbrev MINSIZE : ℕ := 4

/-- `MINSZ(sz)`, an unsigned number. -/
def MINSZ (sz : ℤ) : ℕ := clearLow 32 2 ((UINT sz + (MINSIZE - 1)) % 2 ^ 32)

/-- Fixed size memory pool control block, the free blocks and the fields of the tasks it works
with. -/
structure Mpfcb where
  wait_queue : List Tsk
  mpfatr : ℕ
  mpfcnt : ℤ
  blfsz : ℤ
  mpfsz : ℤ
  frbcnt : ℤ
  mempool : ℕ
  unused : ℕ
  freelist : ℕ
  /-- `((FREEL *)blf)->next` -/
  next : ℕ → ℕ
  priority : Tsk → ℕ
  waitmask : Tsk → ℕ
  nodiswai : Tsk → Bool

/-- What happens to blocks and waits. -/
inductive MpfEvent
  /-- The task gets the block, at once or at the end of its wait. -/
  | got (t : Tsk) (blf : ℕ)
  | released (blf : ℕ)
  /-- A wait ends without a block, with an error or with its task. -/
  | waitEnds (t : Tsk) (ercd : Option ER)
  deriving DecidableEq, Repr

abbrev MpfResult := Mpfcb × List MpfEvent × Option ℤ

/-- `_tk_cre_mpf`: the error, or the new control block. `chk` is the result of the checks of the
attributes, the context and the domain identifier, `iamalloc n` is where `IAmalloc` finds `n` bytes,
and `rest` the result of what follows it: the checks of domain, name and protection and the search
for a control block. -/
def tkCreMpf (chk : ER) (mpfatr : ℕ) (mpfcnt blfsz : ℤ) (iamalloc : ℕ → Option ℕ) (rest : ER)
    (s : Mpfcb) : Except ER Mpfcb :=
  if ¬mpfcnt > 0 then .error E_PAR
  else if ¬blfsz > 0 then .error E_PAR
  else if chk ≠ E_OK then .error chk
  else
    let blfsz := INT (MINSZ blfsz)
    let mpfsz := INT (UINT (blfsz * mpfcnt))
    -- allocate memory for memory pool
    match iamalloc (UINT mpfsz) with
    | none => .error E_NOMEM
    | some mempool =>
      if rest < E_OK then .error rest
      else
        .ok { s with
          wait_queue := []
          mpfatr := mpfatr
          mpfcnt := mpfcnt
          frbcnt := mpfcnt
          blfsz := blfsz
          mpfsz := mpfsz
          mempool := mempool
          unused := mempool
          freelist := nullPtr }

namespace Mpfcb

variable (s : Mpfcb)

/-- End address in memory pool area. -/
def mempoolEnd : ℕ := UINT (s.mempool + s.mpfsz)

/-- `mpf_chg_pri`. -/
def mpfChgPri (t : Tsk) : Mpfcb :=
  { s with wait_queue := gcbChangePriority s.priority t s.wait_queue }

/-! ## System calls

`idOk` says that the identifier is in its range, `prot` is the result of the checks of existence,
domain and protection, `ddsp` says that dispatching is disabled. -/

/-- The part of `gcb_make_wait_with_diswai` that waits. -/
def makeWait (self : Tsk) : Mpfcb :=
  { s with
    wait_queue := gcbInsert s.mpfatr s.priority self s.wait_queue
    nodiswai := Function.update s.nodiswai self (s.mpfatr &&& TA_NODISWAI ≠ 0) }

/-- The end of `_tk_get_mpf`: the first block of the list, or else the first unused one. -/
def takeBlf : ℕ × Mpfcb :=
  if s.freelist ≠ nullPtr then
    (s.freelist, { s with
      freelist := s.next s.freelist
      frbcnt := s.frbcnt - 1 })
  else
    (s.unused, { s with
      unused := UINT (s.unused + s.blfsz)
      frbcnt := s.frbcnt - 1 })

def tkGetMpf (self : Tsk) (idOk ddsp : Bool) (prot : ER) (tmout : ℤ) : MpfResult :=
  if !idOk then (s, [], some E_ID)
  else if ¬tmout ≥ TMO_FEVR then (s, [], some E_PAR)
  else if ddsp then (s, [], some E_CTX)
  else if prot ≠ E_OK then (s, [], some prot)
  else if isDiswai s.mpfatr (s.waitmask self) TTW_MPF then (s, [], some E_DISWAI)
  else if s.frbcnt ≤ 0 then
    -- there is no space, ready for wait
    if isDiswai s.mpfatr (s.waitmask self) TTW_MPF then (s, [], some E_DISWAI)
    else if tmout = TMO_POL then (s, [], some E_TMOUT)
    else (s.makeWait self, [], none)
  else (s.takeBlf.2, [.got self s.takeBlf.1], some E_OK)

/-- The checks `_tk_rel_mpf` makes of a block; the difference of the addresses is a signed
number. -/
def relCheck (blf : ℕ) : Bool :=
  ¬(blf < s.mempool ∨ blf ≥ s.mempoolEnd ∨ (INT (UINT ((blf : ℤ) - s.mempool))).tmod s.blfsz ≠ 0)

/-- Free memory block. -/
def freeBlf (blf : ℕ) : Mpfcb :=
  { s with
    next := Function.update s.next blf s.freelist
    freelist := blf
    frbcnt := s.frbcnt + 1 }

def tkRelMpf (idOk ddsp : Bool) (prot : ER) (blf : ℕ) : MpfResult :=
  if !idOk then (s, [], some E_ID)
  else if ddsp then (s, [], some E_CTX)
  else if prot ≠ E_OK then (s, [], some prot)
  else if !s.relCheck blf then (s, [], some E_PAR)
  else
    match s.wait_queue with
    | tcb :: queue =>
      -- send memory block to waiting task, and then release the task
      ({ s with wait_queue := queue }, [.released blf, .got tcb blf], some E_OK)
    | [] => (s.freeBlf blf, [.released blf], some E_OK)

/-! ## The end of a wait -/

/-- The wait of a task ends with an error, or (`none`) with its task. -/
def endWait (t : Tsk) (ercd : Option ER) : Mpfcb × List MpfEvent :=
  ({ s with wait_queue := s.wait_queue.erase t }, [.waitEnds t ercd])

/-- `wait_release_tmout`, for a task in this queue. -/
def waitReleaseTmout (t : Tsk) : MpfResult :=
  if t ∈ s.wait_queue then ((s.endWait t (some E_TMOUT)).1, (s.endWait t (some E_TMOUT)).2, none)
  else (s, [], none)

/-- `_tk_rel_wai`; `chk` is the result of its checks. -/
def tkRelWai (t : Tsk) (chk : ER) : MpfResult :=
  if chk ≠ E_OK then (s, [], some chk)
  else if t ∈ s.wait_queue then
    let r := s.endWait t (some E_RLWAI)
    (r.1, r.2, some E_OK)
  else (s, [], some E_OK)

/-- `_tk_dis_wai`; `elsewhere` is its result for a task that does not wait here. -/
def tkDisWai (t : Tsk) (waitmask : ℕ) (chk : ER) (elsewhere : ℤ) : MpfResult :=
  if chk ≠ E_OK then (s, [], some chk)
  else
    let s := { s with waitmask := Function.update s.waitmask t waitmask }
    if t ∈ s.wait_queue then
      if TTW_MPF &&& waitmask ≠ 0 ∧ !s.nodiswai t then
        let r := s.endWait t (some E_DISWAI)
        (r.1, r.2, some 0)
      else (s, [], some TTW_MPF)
    else (s, [], some elsewhere)

/-- `_tk_ena_wai`. -/
def tkEnaWai (t : Tsk) (chk : ER) : MpfResult :=
  if chk ≠ E_OK then (s, [], some chk)
  else ({ s with waitmask := Function.update s.waitmask t 0 }, [], some E_OK)

/-- `_tk_ter_tsk`; `_ter_tsk` cancels the wait. -/
def tkTerTsk (t : Tsk) (chk : ER) : MpfResult :=
  if chk ≠ E_OK then (s, [], some chk)
  else if t ∈ s.wait_queue then
    let r := s.endWait t none
    (r.1, r.2, some E_OK)
  else (s, [], some E_OK)

/-- `change_task_priority`; only tasks that wait for a `TA_TPRI` pool have a hook. -/
def changeTaskPriority (t : Tsk) (priority : ℕ) : Mpfcb :=
  let s := { s with priority := Function.update s.priority t priority }
  if t ∈ s.wait_queue ∧ s.mpfatr &&& TA_TPRI ≠ 0 then s.mpfChgPri t else s

/-- `_tk_chg_pri`, and changes of priorities through mutexes. -/
def tkChgPri (t : Tsk) (priority : ℕ) (chk : ER) : MpfResult :=
  if chk ≠ E_OK then (s, [], some chk) else (s.changeTaskPriority t priority, [], some E_OK)

end Mpfcb

/-! ## Runs -/

inductive MpfOp
  | getMpf (self : Tsk) (idOk ddsp : Bool) (prot : ER) (tmout : ℤ)
  | relMpf (idOk ddsp : Bool) (prot : ER) (blf : ℕ)
  | timeout (t : Tsk)
  | relWai (t : Tsk) (chk : ER)
  | disWai (t : Tsk) (waitmask : ℕ) (chk : ER) (elsewhere : ℤ)
  | enaWai (t : Tsk) (chk : ER)
  | terTsk (t : Tsk) (chk : ER)
  | chgPri (t : Tsk) (priority : ℕ) (chk : ER)
  /-- The owners of blocks use them. -/
  | write (next : ℕ → ℕ)

def MpfOp.exec (s : Mpfcb) : MpfOp → MpfResult
  | getMpf self idOk ddsp prot tmout => s.tkGetMpf self idOk ddsp prot tmout
  | relMpf idOk ddsp prot blf => s.tkRelMpf idOk ddsp prot blf
  | timeout t => s.waitReleaseTmout t
  | relWai t chk => s.tkRelWai t chk
  | disWai t waitmask chk elsewhere => s.tkDisWai t waitmask chk elsewhere
  | enaWai t chk => s.tkEnaWai t chk
  | terTsk t chk => s.tkTerTsk t chk
  | chgPri t priority chk => s.tkChgPri t priority chk
  | write next => ({ s with next := next }, [], none)

/-- The blocks that are in use after an event. -/
def MpfEvent.track (out : List ℕ) : MpfEvent → List ℕ
  | got _ blf => blf :: out
  | released blf => out.erase blf
  | waitEnds .. => out

/-- The blocks that are in use. -/
def outstandingBlfs (log : List MpfEvent) : List ℕ := log.foldl MpfEvent.track []

/-- A task that waits makes no call; only blocks in use are released and written to. -/
def MpfOp.Legal (s : Mpfcb) (out : List ℕ) : MpfOp → Prop
  | getMpf self _ _ _ _ => self ∉ s.wait_queue
  | relMpf _ _ _ blf => blf ∈ out
  | write next => ∀ z : ℕ, (∀ blf ∈ out, z < blf ∨ (blf : ℤ) + s.blfsz ≤ z) → next z = s.next z
  | _ => True

/-- The states a pool reaches from its creation, with their histories. -/
inductive MpfRun (s₀ : Mpfcb) : Mpfcb → List MpfEvent → Prop
  | create : MpfRun s₀ s₀ []
  | step {s : Mpfcb} {log : List MpfEvent} (op : MpfOp) (run : MpfRun s₀ s log)
      (legal : op.Legal s (outstandingBlfs log)) : MpfRun s₀ (op.exec s).1 (log ++ (op.exec s).2.1)

end SmpTKernel
