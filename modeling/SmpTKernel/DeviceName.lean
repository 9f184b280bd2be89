import SmpTKernel.Basic
import Mathlib.Data.List.Basic

/-!
# Names of devices

`device.c`: a device is registered under the name of the device itself; the name of a subunit is
this name followed by the number of the subunit, less one. `tk_opn_dev` and `tk_ref_dev` split the
name they are given at its first digit. A string is the list of its characters before the end.
-/

namespace SmpTKernel

abbrev L_DEVNM : ℕ := 8

/-- Maximum number of subunits. -/
abbrev MAX_UNIT : ℤ := 255

/-- `c >= '0' && c <= '9'` -/
def isDigit (c : UB) : Bool := 48 ≤ c.toNat ∧ c.toNat ≤ 57

/-- `c - '0'` -/
def digitOf (c : UB) : ℤ := (c.toNat : ℤ) - 48

/-- The loop of `logdevnm`, which writes `unitno` in front of `cp`. -/
def unitnoLoop (unitno : ℕ) (cp : List UB) : List UB :=
  let cp := BitVec.ofNat 8 (48 + unitno % 10) :: cp
  if unitno / 10 = 0 then cp else unitnoLoop (unitno / 10) cp
termination_by unitno
decreasing_by omega

/-- Get logical device name. -/
def logdevnm (pdevnm : List UB) (unitno : ℤ) : List UB :=
  if unitno > 0 then pdevnm ++ unitnoLoop (unitno - 1).toNat [] else pdevnm

/-- Get physical device name, and the subunit number. -/
def phydevnm (ldevnm : List UB) : List UB × ℤ :=
  let pdevnm := ldevnm.takeWhile fun c => !isDigit c
  let ldevnm := ldevnm.dropWhile fun c => !isDigit c
  if ldevnm = [] then (pdevnm, 0)
  else
    let unitno := ldevnm.foldl (fun unitno c => INT (UINT (unitno * 10 + digitOf c))) 0
    (pdevnm, INT (UINT (unitno + 1)))

/-- Device registration information. -/
structure DevReg where
  /-- `devcb - DevCBtbl` -/
  no : ℕ
  devnm : List UB
  nsub : ℤ
  deriving DecidableEq, Repr

/-- `DEVID(devcb, unitno)` -/
def DevReg.DEVID (devcb : DevReg) (unitno : ℤ) : ℤ := (devcb.no + 1 : ℤ) * 256 + unitno

/-- The table of devices: `UsedDevCB` and `FreeDevCB`. -/
structure DevTbl where
  used : List DevReg
  free : List ℕ
  deriving DecidableEq, Repr

namespace DevTbl

variable (s : DevTbl)

/-- Search registration device. -/
def searchDevCB (devnm : List UB) : Option DevReg := s.used.find? fun devcb => devcb.devnm = devnm

/-- What `_tk_def_dev` checks of `ddev`: `chk` says that it can be read. -/
def checkDdev (len : ℕ) : Option (ER × ℤ) → ER
  | none => E_OK
  | some (chk, nsub) =>
    if chk < E_OK then chk
    else if nsub < 0 ∨ nsub > MAX_UNIT then E_PAR
    else
      -- the length of the logical device name does not exceed the character limit
      let len := if nsub > 0 then len + 1 else len
      let len := if nsub > 10 then len + 1 else len
      let len := if nsub > 100 then len + 1 else len
      if len > L_DEVNM then E_PAR else E_OK

/-- Device registration; `chkName` and `chkIdev` are the results of the checks of memory, `inUse`
says that the device is open. -/
def tkDefDev (chkName : ER) (devnm : List UB) (ddev : Option (ER × ℤ)) (chkIdev : ER)
    (inUse : Bool) : ER × DevTbl :=
  if chkName < E_OK then (chkName, s)
  else if devnm.length = 0 ∨ devnm.length > L_DEVNM then (E_PAR, s)
  else if checkDdev devnm.length ddev < E_OK then (checkDdev devnm.length ddev, s)
  else if chkIdev < E_OK then (chkIdev, s)
  else
    match s.searchDevCB devnm, ddev with
    | none, none => (E_NOEXS, s)
    | none, some (_, nsub) =>
      -- new registration
      match s.free with
      | [] => (E_LIMIT, s)
      | no :: free => (DevReg.DEVID ⟨no, devnm, nsub⟩ 0, ⟨s.used ++ [⟨no, devnm, nsub⟩], free⟩)
    | some devcb, some (_, nsub) =>
      -- update device registration information
      (devcb.DEVID 0,
        { s with used := s.used.map fun d => if d = devcb then { d with nsub := nsub } else d })
    | some devcb, none =>
      if inUse then (E_BUSY, s) else (devcb.DEVID 0, ⟨s.used.erase devcb, s.free ++ [devcb.no]⟩)

/-- The device and the subunit a name stands for. -/
def findDev (devnm : List UB) : Except ER (DevReg × ℤ) :=
  let (pdevnm, unitno) := phydevnm devnm
  match s.searchDevCB pdevnm with
  | none => .error E_NOEXS
  | some devcb => if unitno > devcb.nsub then .error E_NOEXS else .ok (devcb, unitno)

/-- Get device information: the identifier, `rdev->nsub` and `rdev->subno`; `chk` is the result of
the checks of memory. -/
def tkRefDev (chk : ER) (devnm : List UB) : Except ER (ℤ × ℤ × ℤ) :=
  if chk < E_OK then .error chk
  else (s.findDev devnm).map fun (devcb, unitno) => (devcb.DEVID unitno, devcb.nsub, unitno)

/-- Device open: `rescb` says that there is resource management information, and `opn` is what
follows from the check of the open mode on. -/
def tkOpnDev (chk : ER) (rescb : Bool) (devnm : List UB) (opn : DevReg → ℤ → Except ER ℤ) :
    Except ER ℤ :=
  if chk < E_OK then .error chk
  else if !rescb then .error E_CTX
  else (s.findDev devnm).bind fun (devcb, unitno) => opn devcb unitno

end DevTbl

/-! ## Runs -/

/-- A call of `tk_def_dev`. -/
structure DefDev where
  chkName : ER
  devnm : List UB
  ddev : Option (ER × ℤ)
  chkIdev : ER
  inUse : Bool
  deriving DecidableEq, Repr

def DefDev.exec (s : DevTbl) (op : DefDev) : DevTbl :=
  (s.tkDefDev op.chkName op.devnm op.ddev op.chkIdev op.inUse).2

/-- The tables that are reached by calls of `tk_def_dev`. -/
inductive DevTblRun : DevTbl → Prop
  | init (maxRegDev : ℕ) : DevTblRun ⟨[], List.range maxRegDev⟩
  | step {s : DevTbl} (op : DefDev) (run : DevTblRun s) : DevTblRun (op.exec s)

end SmpTKernel
