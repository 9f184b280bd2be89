import SmpTKernel.Basic
import SmpTKernel.Lib.Histories
import Mathlib.Logic.Function.Basic

/-!
# Opening and closing devices

`deviceio.c`: `tk_opn_dev` and `tk_cls_dev` decide under the device lock whether the driver is
called, and call it when they have released the lock. A step is what a call does between two
releases of the lock, or a call or return of the driver; the steps of all calls come in any order.
-/

namespace SmpTKernel

open History

abbrev E_OACV : ER := -27

abbrev TD_READ : BitVec 32 := 0x0001
abbrev TD_WRITE : BitVec 32 := 0x0002
abbrev TD_UPDATE : BitVec 32 := 0x0003
abbrev TD_EXCL : BitVec 32 := 0x0100
abbrev TD_WEXCL : BitVec 32 := 0x0200
abbrev TD_REXCL : BitVec 32 := 0x0400
abbrev TD_EJECT : BitVec 32 := 0x0001
/-- Every time open/close. -/
abbrev TDA_OPENREQ : BitVec 32 := 0x0001

/-- Open management block. -/
structure OpnCB where
  /-- What the name of the device gave, which may be negative. -/
  unitno : ℤ
  omode : BitVec 32
  /-- 0 while the open is not completed, and from the begin of the close. -/
  resid : ℕ
  deriving DecidableEq, Repr

/-- How far the open or the close of a block has come. -/
inductive OpnPhase
  /-- In `FreeOpnCB`, or used for another device. -/
  | free
  /-- `openfn` is called next. -/
  | toOpen
  | inOpen
  /-- `openfn` has succeeded or is not needed, `resid` is set next. -/
  | opened
  | failed (ercd : ER)
  /-- `tk_opn_dev` has returned the descriptor. -/
  | returned
  /-- `tk_cls_dev` has reset `resid`; it aborts the requests. -/
  | closing (option : BitVec 32)
  /-- The block is out of `openq`, `closefn` is called next. -/
  | toClose (option : BitVec 32)
  | inClose
  /-- The block is put into `FreeOpnCB` next. -/
  | closed (ercd : ER)
  deriving DecidableEq, Repr

/-- What the driver sees. -/
inductive DrvEvent
  | openCalled (unitno : ℤ)
  | openReturned (unitno : ℤ) (ercd : ER)
  | closeCalled (unitno : ℤ)
  deriving DecidableEq, Repr

/-- A registered device. -/
structure DevCB where
  drvatr : BitVec 32
  /-- Number of subunits. -/
  nsub : ℤ
  /-- The blocks of the open descriptors, by their numbers in `OpnCBtbl`. -/
  openq : List ℕ
  opncb : ℕ → OpnCB
  phase : ℕ → OpnPhase
  log : List DrvEvent

namespace DevCB

variable (s : DevCB)

/-- Go on with block `o`. -/
def goTo (o : ℕ) (p : OpnPhase) : DevCB := { s with phase := Function.update s.phase o p }

def setResid (o rid : ℕ) : DevCB :=
  { s with opncb := Function.update s.opncb o { s.opncb o with resid := rid } }

/-- Register as open device: `newOpnCB`, with the block `o` from `FreeOpnCB`. -/
def newOpnCB (o : ℕ) (unitno : ℤ) (omode : BitVec 32) : DevCB :=
  { s with
    openq := s.openq ++ [o]
    opncb := Function.update s.opncb o ⟨unitno, omode, 0⟩ }

/-- Free open management block: `delOpnCB`, less the insertion into `FreeOpnCB`. -/
def delOpnCB (o : ℕ) : DevCB := { s.setResid o 0 with openq := s.openq.erase o }

/-- Check open mode. -/
def chkopenmode (unitno : ℤ) (omode : BitVec 32) : ER :=
  if omode &&& TD_UPDATE = 0 then E_PAR
  else
    let q := (s.openq.map s.opncb).filter fun opncb =>
      unitno = 0 ∨ opncb.unitno = 0 ∨ opncb.unitno = unitno
    let read := q.countP fun opncb => opncb.omode &&& TD_READ ≠ 0
    let write := q.countP fun opncb => opncb.omode &&& TD_WRITE ≠ 0
    let rexcl := q.countP fun opncb => opncb.omode &&& (TD_EXCL ||| TD_REXCL) ≠ 0
    let wexcl := q.countP fun opncb => opncb.omode &&& (TD_EXCL ||| TD_WEXCL) ≠ 0
    if omode &&& (TD_EXCL ||| TD_REXCL) ≠ 0 ∧ read > 0 then E_BUSY
    else if omode &&& (TD_EXCL ||| TD_WEXCL) ≠ 0 ∧ write > 0 then E_BUSY
    else if omode &&& TD_READ ≠ 0 ∧ rexcl > 0 then E_BUSY
    else if omode &&& TD_WRITE ≠ 0 ∧ wexcl > 0 then E_BUSY
    else E_OK

/-- TRUE if specified device is open. -/
def chkopen (unitno : ℤ) : Bool := s.openq.any fun o => (s.opncb o).unitno = unitno

/-- Device open: `_tk_opn_dev` to the first `UnlockDM`. `new` is what `FreeOpnCB` has to give. -/
def opnDev (unitno : ℤ) (omode : BitVec 32) (new : Option ℕ) : ER × DevCB :=
  if unitno > s.nsub then (E_NOEXS, s)
  else if s.chkopenmode unitno omode < E_OK then (s.chkopenmode unitno omode, s)
  else
    match new with
    | none => (E_LIMIT, s)
    | some o =>
      let p := if s.chkopen unitno ∧ s.drvatr &&& TDA_OPENREQ = 0 then .opened else .toOpen
      (E_OK, (s.newOpnCB o unitno omode).goTo o p)

/-- The call of `openfn`. -/
def callOpenfn (o : ℕ) : DevCB :=
  { s.goTo o .inOpen with log := s.log ++ [.openCalled (s.opncb o).unitno] }

/-- The return of `openfn`. -/
def openfnReturns (o : ℕ) (ercd : ER) : DevCB :=
  { s.goTo o (if ercd < E_OK then .failed ercd else .opened) with
    log := s.log ++ [.openReturned (s.opncb o).unitno ercd] }

/-- The end of `_tk_opn_dev`, which returns the descriptor. -/
def opnDevReturns (o rid : ℕ) : DevCB := (s.setResid o rid).goTo o .returned

/-- `err_ret3` of `_tk_opn_dev`. -/
def opnDevFails (o : ℕ) : DevCB := (s.delOpnCB o).goTo o .free

/-- Verify validity of device descriptor, for a task of the resource group `rid`. -/
def checkDevdesc (o rid : ℕ) : ER :=
  if (s.opncb o).resid = 0 then E_ID
  else if (s.opncb o).resid ≠ rid then E_OACV
  else E_OK

/-- Device close: `_tk_cls_dev` to `UnlockDM`. -/
def clsDev (o rid : ℕ) (option : BitVec 32) : ER × DevCB :=
  if s.checkDevdesc o rid < E_OK then (s.checkDevdesc o rid, s)
  else (E_OK, (s.setResid o 0).goTo o (.closing option))

/-- Device close processing: `close_device`, from the end of `abort_allrequest` to `UnlockDM`. -/
def closeDevice (o : ℕ) (option : BitVec 32) : DevCB :=
  let s' := s.delOpnCB o
  if s'.chkopen (s.opncb o).unitno then
    let option := option &&& ~~~TD_EJECT
    if s.drvatr &&& TDA_OPENREQ = 0 then s'.goTo o (.closed E_OK) else s'.goTo o (.toClose option)
  else s'.goTo o (.toClose option)

/-- The call of `closefn`. -/
def callClosefn (o : ℕ) : DevCB :=
  { s.goTo o .inClose with log := s.log ++ [.closeCalled (s.opncb o).unitno] }

/-- The return of `closefn`. -/
def closefnReturns (o : ℕ) (ercd : ER) : DevCB := s.goTo o (.closed ercd)

/-- Return open management block to `FreeOpnCB`: the end of `close_device`. -/
def freeOpnCB (o : ℕ) : DevCB := s.goTo o .free

end DevCB

/-! ## Runs -/

inductive DevOp
  | opnDev (unitno : ℤ) (omode : BitVec 32) (new : Option ℕ)
  | callOpenfn (o : ℕ)
  | openfnReturns (o : ℕ) (ercd : ER)
  | opnDevReturns (o rid : ℕ)
  | opnDevFails (o : ℕ)
  | clsDev (o rid : ℕ) (option : BitVec 32)
  | closeDevice (o : ℕ) (option : BitVec 32)
  | callClosefn (o : ℕ)
  | closefnReturns (o : ℕ) (ercd : ER)
  | freeOpnCB (o : ℕ)
  deriving DecidableEq, Repr

def DevOp.exec (s : DevCB) : DevOp → DevCB
  | opnDev unitno omode new => (s.opnDev unitno omode new).2
  | callOpenfn o => s.callOpenfn o
  | openfnReturns o ercd => s.openfnReturns o ercd
  | opnDevReturns o rid => s.opnDevReturns o rid
  | opnDevFails o => s.opnDevFails o
  | clsDev o rid option => (s.clsDev o rid option).2
  | closeDevice o option => s.closeDevice o option
  | callClosefn o => s.callClosefn o
  | closefnReturns o ercd => s.closefnReturns o ercd
  | freeOpnCB o => s.freeOpnCB o

/-- The phase of a block that has failed. -/
def OpnPhase.isFailed : OpnPhase → Bool
  | failed _ => true
  | _ => false

/-- The phase of a block for which `closefn` is called next. -/
def OpnPhase.isToClose : OpnPhase → Bool
  | toClose _ => true
  | _ => false

/-- Calls go on where they are; a new block is free, and identifiers of resource groups are
positive. -/
def DevOp.Legal (s : DevCB) : DevOp → Prop
  | opnDev _ _ new => ∀ o ∈ new, s.phase o = .free
  | callOpenfn o => s.phase o = .toOpen
  | openfnReturns o _ => s.phase o = .inOpen
  | opnDevReturns o rid => s.phase o = .opened ∧ 0 < rid
  | opnDevFails o => (s.phase o).isFailed
  | clsDev .. => True
  | closeDevice o option => s.phase o = .closing option
  | callClosefn o => (s.phase o).isToClose
  | closefnReturns o _ => s.phase o = .inClose
  | freeOpnCB o => ∃ ercd, s.phase o = .closed ercd

/-- A device nobody has opened yet. -/
structure DevCB.Unused (s : DevCB) : Prop where
  openq : s.openq = []
  resid : ∀ o, (s.opncb o).resid = 0
  phase : ∀ o, s.phase o = .free
  log : s.log = []

/-- The states a device reaches from `s₀` by steps that all meet the condition `P`. -/
inductive DevRun (P : DevCB → DevOp → Prop) (s₀ : DevCB) : DevCB → Prop
  | start (h : s₀.Unused) : DevRun P s₀ s₀
  | step {s : DevCB} (op : DevOp) (run : DevRun P s₀ s) (legal : op.Legal s) (h : P s op) :
      DevRun P s₀ (op.exec s)

/-! ## What the driver sees of a unit -/

inductive DrvState
  | closed
  | opening
  | opened
  deriving DecidableEq, Repr

def drvStep (unitno : ℤ) (d : DrvState) : DrvEvent → DrvState
  | .openCalled u => if u = unitno then .opening else d
  | .openReturned u ercd => if u = unitno then (if ercd < E_OK then .closed else .opened) else d
  | .closeCalled u => if u = unitno then .closed else d

/-- In which state the driver takes the unit to be. -/
def drvState (unitno : ℤ) (log : List DrvEvent) : DrvState := summary (drvStep unitno) .closed log

/-- An open or close call finds the unit as it should. -/
def Paired (before : List DrvEvent) : DrvEvent → Prop
  | .openCalled u => drvState u before = .closed
  | .openReturned u _ => drvState u before = .opening
  | .closeCalled u => drvState u before = .opened

/-- Calls of `openfn` and `closefn` alternate, and the unit of an open descriptor has been opened
with success and not been closed since. -/
structure DevRight (s : DevCB) : Prop where
  alternate : Right Paired s.log
  backed : ∀ o, (s.opncb o).resid ≠ 0 → ∃ a ercd b, E_OK ≤ ercd ∧
    s.log = a ++ .openReturned (s.opncb o).unitno ercd :: b ∧ .closeCalled (s.opncb o).unitno ∉ b

/-- The driver call of one block is not overtaken by another block of the unit: `openfn` is not
called while a `closefn` has yet to be called, no descriptor is returned while the first `openfn`
has yet to be called or to return, an `openfn` does not fail while there is another block, and none
is added to a failed one. -/
def DevOp.Keeps (s : DevCB) : DevOp → Prop
  | opnDev unitno omode new => new ≠ none → unitno ≤ s.nsub → s.chkopenmode unitno omode = E_OK →
    ∀ o ∈ s.openq, (s.opncb o).unitno = unitno → (s.phase o).isFailed = false
  | callOpenfn o => ∀ c, (s.opncb c).unitno = (s.opncb o).unitno → (s.phase c).isToClose = false
  | openfnReturns o ercd => ercd < E_OK → ∀ o' ∈ s.openq, (s.opncb o').unitno = (s.opncb o).unitno →
      o' = o
  | opnDevReturns o _ => ∀ o' ∈ s.openq, (s.opncb o').unitno = (s.opncb o).unitno →
    s.phase o' ≠ .toOpen ∧ s.phase o' ≠ .inOpen
  | _ => True

end SmpTKernel
