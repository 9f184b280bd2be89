import SmpTKernel.ReadyQueue

/-!
# Selection of the tasks to run

`ready_queue.c`: `ready_queue_top` goes through the ready queue in order of precedence and keeps the
tasks that can all be placed at once, testing each against a table of what the kept ones need
(`hist`). `single_core_assign` and `multi_core_assign` then place them, the task a processor runs
already where possible. A `UW` is a natural number here; arrays are functions of the index.
-/

namespace SmpTKernel

/-- Task dispatch disable states (`DDS_DISABLE` is set by `tk_dis_dsp`). -/
abbrev DDS_ENABLE : ℕ := 0
abbrev DDS_DISABLE : ℕ := 2

variable (numProc : ℕ)

/-- The processors the system has. -/
def ALL_CORE_BIT : ℕ := 0xFFFFFFFF >>> (32 - numProc)

/-- What the selection reads beside the ready queue. -/
structure Cpus where
  ctxtsk : ℕ → Option Tsk
  dispatch_disabled : ℕ → ℕ

/-- `bits & (1 << i)`. -/
def hasBit (bits i : ℕ) : Bool := bits &&& (1 <<< i) ≠ 0

def cntBitsTable : List ℕ := [0, 1, 1, 2, 1, 2, 2, 3, 1, 2, 2, 3, 2, 3, 3, 4]

/-- `cnt_bits`: four bits a turn. -/
def cntBits (bits : ℕ) : ℕ :=
  ((List.range ((numProc + 3) / 4)).map fun i =>
    cntBitsTable.getD ((bits >>> (4 * i)) &&& 0xF) 0).sum

def cntBits2 (bits : ℕ) : ℕ := ((List.range numProc).filter (hasBit bits)).length

def unsumBits (cnt : ℕ → ℕ) (bit : ℕ) : ℕ → ℕ := fun k =>
  if k < numProc ∧ hasBit bit k then (cnt k + 0xFFFFFFFF) % 2 ^ 32 else cnt k

def sumBits (cnt : ℕ → ℕ) (bit : ℕ) : ℕ → ℕ := fun k =>
  if k < numProc ∧ hasBit bit k then (cnt k + 1) % 2 ^ 32 else cnt k

/-- `bits[k] &= ~(1 << no)` for every `k`. -/
def dropBit (bits : ℕ → ℕ) (no : ℕ) : ℕ → ℕ := fun k =>
  if k < numProc then bits k &&& (0xFFFFFFFF ^^^ (1 <<< no)) else bits k

/-! ## Choosing -/

/-- `dds_mask`: the processors that dispatch. -/
def ddsMask (u : Cpus) : ℕ :=
  0xFFFFFFFF ^^^ (List.range numProc).foldl
    (fun m j => if u.dispatch_disabled j ≥ DDS_DISABLE then m ||| (1 <<< j) else m) 0

/-- The processors the task asks for. -/
def askedBits (c : Core) (t : Tsk) : ℕ :=
  if (c.tcb t).tskatr &&& TA_ASSPRC = 0 then ALL_CORE_BIT numProc else (c.tcb t).assprc

/-- The processors the task can be put on; one whose processor does not dispatch cannot move. -/
def placeBits (c : Core) (u : Cpus) (t : Tsk) : ℕ :=
  match (List.range numProc).find? fun i =>
      some t = u.ctxtsk i ∧ u.dispatch_disabled i ≥ DDS_DISABLE with
  | some i => 1 <<< i
  | none => askedBits numProc c t &&& ddsMask numProc u

/-- One more task on top of an entry of `hist`: needs in the lower 16 bits, number in the upper. -/
def orBitNum (entry bit : ℕ) : ℕ := (entry ||| bit) + (1 <<< 16)

/-- The check against `hist` fails for some entry. -/
def overbooked (hist : List ℕ) (bit : ℕ) : Bool :=
  hist.any fun e => cntBits numProc (orBitNum e bit &&& 0xFFFF) < orBitNum e bit >>> 16

/-- The entries added to `hist` for a task that is kept. -/
def histAdd (hist : List ℕ) (bit : ℕ) : List ℕ :=
  hist ++ hist.map (orBitNum · bit) ++ [bit ||| (1 <<< 16)]

/-- The local variables of `ready_queue_top`; `hist` holds its first `hist_num` entries. -/
structure Selection where
  top_tcb : ℕ → Option Tsk
  top_bit : ℕ → ℕ
  bit_cnt : ℕ → ℕ
  hist : List ℕ
  assign_num : ℕ

/-- Drop the task at `j`, move the others up and fetch the next one. -/
def shiftTop (c : Core) (top : ℕ → Option Tsk) (j : ℕ) : ℕ → Option Tsk :=
  let top := shiftDown (numProc - 1 - j) j top
  match top (numProc - 1) with
  | none => top
  | some u => Function.update top (numProc - 1) (getNextTcb c u)

/-- The selection loop from place `j` on. `none` when the fuel runs out; every turn keeps or drops a
queued task, so the length of the queue and one more turn are enough. -/
def selectTop (c : Core) (u : Cpus) : ℕ → ℕ → Selection → Option Selection
  | 0, _, _ => none
  | fuel + 1, j, s =>
    if j < numProc then
      match s.top_tcb j with
      | none => some s
      | some t =>
        let bit := placeBits numProc c u t
        let retry := { s with top_tcb := shiftTop numProc c s.top_tcb j }
        if bit = 0 then selectTop c u fuel j retry
        else if bit ≠ ALL_CORE_BIT numProc ∧ overbooked numProc s.hist bit then
          selectTop c u fuel j retry
        else
          selectTop c u fuel (j + 1)
            { s with
              hist := if bit ≠ ALL_CORE_BIT numProc ∧ j ≠ numProc - 1 then histAdd s.hist bit
                else s.hist
              top_bit := Function.update s.top_bit j bit
              bit_cnt := sumBits numProc s.bit_cnt bit
              assign_num := s.assign_num + 1 }
    else some s

/-! ## Placing -/

/-- The scheduled tasks and the tasks left to place. -/
structure Placement where
  sch : ℕ → Option Tsk
  top_tcb : ℕ → Option Tsk

/-- The first processor with the given property takes the task at `j`. -/
def Placement.putFirst (s : Placement) (j : ℕ) (t : Tsk) (p : ℕ → Bool) : Placement :=
  match (List.range numProc).find? p with
  | none => s
  | some i =>
    { sch := Function.update s.sch i (some t), top_tcb := Function.update s.top_tcb j none }

/-- Assign `TA_ASSPRC` attribute tasks; the loop ends at the first free place. -/
def assignAssprc (c : Core) : List ℕ → Placement → Placement
  | [], s => s
  | j :: js, s =>
    match s.top_tcb j with
    | none => s
    | some t =>
      if (c.tcb t).tskatr &&& TA_ASSPRC = 0 ∨ (c.tcb t).assprc = ALL_CORE_BIT numProc then
        assignAssprc c js s
      else
        assignAssprc c js
          (s.putFirst numProc j t fun i => hasBit (c.tcb t).assprc i ∧ s.sch i = none)

/-- Assign tasks to the processor that runs them. -/
def assignCtxtsk (u : Cpus) (s : Placement) (j : ℕ) : Placement :=
  match s.top_tcb j with
  | none => s
  | some t => s.putFirst numProc j t fun i => s.sch i = none ∧ u.ctxtsk i = some t

/-- Assign the rest. -/
def assignRest (u : Cpus) (s : Placement) (j : ℕ) : Placement :=
  match s.top_tcb j with
  | none => s
  | some t =>
    s.putFirst numProc j t fun i => ¬u.dispatch_disabled i ≥ DDS_DISABLE ∧ s.sch i = none

def singleCoreAssign (c : Core) (u : Cpus) (top_tcb : ℕ → Option Tsk) : ℕ → Option Tsk :=
  let s : Placement := { sch := fun _ => none, top_tcb := top_tcb }
  let s := assignAssprc numProc c (List.range numProc) s
  let s := (List.range numProc).foldl (assignCtxtsk numProc u) s
  let s := (List.range numProc).foldl (assignRest numProc u) s
  s.sch

/-- The arrays `multi_core_assign` works on. -/
structure Assign where
  sch : ℕ → Option Tsk
  top_bit : ℕ → ℕ
  bit_cnt : ℕ → ℕ

/-- The test of `try_assign`. -/
def canAssign (top_tcb : ℕ → Option Tsk) (s : Assign) (idx pr : ℕ) (cmptcb : Option Tsk) : Bool :=
  hasBit (s.top_bit idx) pr ∧ s.sch pr = none ∧ cmptcb = top_tcb idx

/-- What `try_assign` does when its test succeeds. -/
def Assign.assign (top_tcb : ℕ → Option Tsk) (s : Assign) (idx pr : ℕ) : Assign where
  sch := Function.update s.sch pr (top_tcb idx)
  top_bit := Function.update (dropBit numProc s.top_bit pr) idx 0
  bit_cnt := unsumBits numProc s.bit_cnt (s.top_bit idx)

/-- Column `j`, then row `j`, where they count `c`: the first pair (task, processor) whose
`try_assign` succeeds. `cmp` is the task it compares with. -/
def tryColumnRow (top_tcb : ℕ → Option Tsk) (s : Assign) (cmp : ℕ → ℕ → Option Tsk) (c j : ℕ) :
    Option (ℕ × ℕ) :=
  (if s.bit_cnt j = c then
    ((List.range numProc).find? fun i => canAssign top_tcb s i j (cmp i j)).map (·, j)
  else none) <|>
  (if cntBits numProc (s.top_bit j) = c then
    ((List.range numProc).find? fun i => canAssign top_tcb s j i (cmp j i)).map (j, ·)
  else none)

/-- The search from `RE_ASSIGN` on: counts `1 .. num_proc`, for each first the tasks on the
processor that runs them and then any. -/
def reAssign (u : Cpus) (top_tcb : ℕ → Option Tsk) (s : Assign) : Option (ℕ × ℕ) :=
  (List.range' 1 numProc).findSome? fun c =>
    (List.range numProc).findSome?
        (tryColumnRow numProc top_tcb s (fun _ pr => u.ctxtsk pr) c) <|>
      (List.range numProc).findSome?
        (tryColumnRow numProc top_tcb s (fun idx _ => top_tcb idx) c)

/-- `multi_core_assign` with `assign_num` tasks left. -/
def multiCoreAssign (u : Cpus) (top_tcb : ℕ → Option Tsk) : ℕ → Assign → ℕ → Option Tsk
  | 0, s => s.sch
  | assign_num + 1, s =>
    match reAssign numProc u top_tcb s with
    | none => s.sch
    | some (idx, pr) => multiCoreAssign u top_tcb assign_num (s.assign numProc top_tcb idx pr)

/-- Some chosen task names more than one processor and not all of them. -/
def needsMulti (c : Core) (s : Selection) : Bool :=
  (List.range s.assign_num).any fun j =>
    (s.top_tcb j).any fun t =>
      1 < cntBits2 numProc (c.tcb t).assprc ∧ cntBits2 numProc (c.tcb t).assprc < numProc

/-- `ready_queue_top`: the task for each processor. -/
def readyQueueTop (c : Core) (u : Cpus) (fuel : ℕ) : Option ((ℕ → Option Tsk) × Core) :=
  let s : Selection :=
    { top_tcb := c.ready_queue.top, top_bit := fun _ => 0, bit_cnt := fun _ => 0, hist := [],
      assign_num := 0 }
  (selectTop numProc c u fuel 0 s).map fun s =>
    let tcb :=
      if needsMulti numProc c s then
        multiCoreAssign numProc u s.top_tcb s.assign_num
          { sch := fun _ => none, top_bit := s.top_bit, bit_cnt := s.bit_cnt }
      else singleCoreAssign numProc c u s.top_tcb
    (tcb, { c with ready_queue.chg := false })

end SmpTKernel
