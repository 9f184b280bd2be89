import SmpTKernel.Basic
import Mathlib.Logic.Function.Basic

/-!
# Suspending the devices

`tk_sus_dev` of `deviceio.c`, and what `devmgr_startup` and `devmgr_cleanup` do to the requests that
disable it. The requests are counted for each resource group and for all of them. `tk_sus_dev` takes
the lock of the device management twice, in `GetResCB` and for the rest, and `tk_cln_ssy` clears the
resource control block without it.
-/

namespace SmpTKernel

open Function

abbrev TD_DEVTYPE : BitVec 32 := 0x00f0
abbrev TDK_DISK : BitVec 32 := 0x0010

abbrev TD_SUSPEND : BitVec 32 := 0x0001
/-- Disable suspend. -/
abbrev TD_DISSUS : BitVec 32 := 0x0002
/-- Enable suspend. -/
abbrev TD_ENASUS : BitVec 32 := 0x0003
/-- Get suspend disable request count. -/
abbrev TD_CHECK : BitVec 32 := 0x0004
/-- Specify forced suspend. -/
abbrev TD_FORCE : BitVec 32 := 0x8000

abbrev TDV_SUSPEND : ℤ := -1
abbrev TDV_RESUME : ℤ := -2

abbrev TSEVT_SUSPEND_BEGIN : ℤ := 1
abbrev TSEVT_SUSPEND_DONE : ℤ := 2
abbrev TSEVT_RESUME_BEGIN : ℤ := 3
abbrev TSEVT_RESUME_DONE : ℤ := 4

/-- Maximum number of suspend disable request counts. -/
abbrev MAX_DISSUS : ℤ := 0x7fff

/-! ## The requests -/

/-- Resource management information. -/
structure ResCB where
  /-- `openq.next` is not `NULL`. -/
  openq : Bool
  /-- Suspend disable request count. -/
  dissus : ℤ
  deriving DecidableEq

/-- `T` are the tasks, `R` the resource groups. -/
structure SusSys (T R : Type) where
  /-- Suspend disable request count. -/
  DisSusCnt : ℤ
  rescb : R → ResCB
  /-- What `GetResCB` has given to a task that has not locked the device management again. -/
  got : T → Option R
  /-- How many calls of `tk_cln_ssy` are between `devmgr_cleanup` and `clean_resblk`. -/
  cleaning : R → ℕ

namespace SusSys

variable {T R : Type} [DecidableEq T] [DecidableEq R] (s : SusSys T R)

def start : SusSys T R := ⟨0, fun _ => ⟨false, 0⟩, fun _ => none, fun _ => 0⟩

def setRescb (r : R) (rescb : ResCB) : SusSys T R := { s with rescb := update s.rescb r rescb }

/-- `GetResCB`; `GetResBlk` gives `none` to a task of no resource group. -/
def getResCB (t : T) (rescb : Option R) : ER × SusSys T R :=
  match rescb with
  | none => (E_CTX, s)
  | some r =>
    (E_OK, { s.setRescb r { s.rescb r with openq := true } with got := update s.got t (some r) })

/-- `_tk_sus_dev` between `LockDM` and `UnlockDM`; `true` is to suspend. -/
def susDev (r : R) (mode : BitVec 32) : Except ER Bool × SusSys T R :=
  if mode &&& 0xf = TD_SUSPEND then
    if s.DisSusCnt > 0 ∧ mode &&& TD_FORCE = 0 then (.error E_BUSY, s) else (.ok true, s)
  else if mode &&& 0xf = TD_DISSUS then
    if s.DisSusCnt ≥ MAX_DISSUS then (.error E_QOVR, s)
    else
      (.ok false, { s.setRescb r { s.rescb r with dissus := (s.rescb r).dissus + 1 } with
        DisSusCnt := s.DisSusCnt + 1 })
  else if mode &&& 0xf = TD_ENASUS then
    if (s.rescb r).dissus > 0 then
      (.ok false, { s.setRescb r { s.rescb r with dissus := (s.rescb r).dissus - 1 } with
        DisSusCnt := s.DisSusCnt - 1 })
    else (.ok false, s)
  else if mode &&& 0xf = TD_CHECK then (.ok false, s)
  else (.error E_PAR, s)

def devmgrStartup (r : R) : SusSys T R := s.setRescb r ⟨true, 0⟩

/-- `devmgr_cleanup`, less the devices that it closes. Before the lock it has `looked` whether there
is an `openq`. -/
def devmgrCleanup (r : R) (looked : Bool) : SusSys T R :=
  if looked = false then s
  else
    { s.setRescb r { s.rescb r with dissus := 0 } with
      DisSusCnt := s.DisSusCnt - (s.rescb r).dissus }

/-- `clean_resblk`. -/
def cleanResblk (r : R) : SusSys T R := s.setRescb r ⟨false, 0⟩

end SusSys

/-- What `do_suspend` needs of a registered device. -/
structure DDev where
  devatr : BitVec 32
  eventfn : ℕ
  deriving DecidableEq

def DDev.isDisk (ddev : DDev) : Bool := ddev.devatr &&& TD_DEVTYPE = TDK_DISK

/-- What `do_suspend` does. -/
inductive SusAct
  | lockREG
  | unlockREG
  | lockDM
  | unlockDM
  /-- `tk_evt_ssy(0, evttyp, 0, 0)`. -/
  | evtSsy (evttyp : ℤ)
  /-- The driver is called. -/
  | eventfn (ddev : DDev) (evttyp : ℤ)
  /-- `tk_set_pow(TPW_DOSUSPEND)`. -/
  | dosuspend
  deriving DecidableEq

/-- `sendevt_alldevice`; the devices are those of `UsedDevCB`. -/
def sendevtAlldevice (devs : List DDev) (evttyp : ℤ) (disk : Bool) : List SusAct :=
  (devs.filter fun ddev => disk = ddev.isDisk).map fun ddev => .eventfn ddev evttyp

/-- `do_suspend`, less the error codes, which it ignores; it returns that of the last call. -/
def doSuspend (devs : List DDev) : List SusAct :=
  [.lockREG, .evtSsy TSEVT_SUSPEND_BEGIN] ++
  sendevtAlldevice devs TDV_SUSPEND false ++ sendevtAlldevice devs TDV_SUSPEND true ++
  [.lockDM, .evtSsy TSEVT_SUSPEND_DONE, .dosuspend, .evtSsy TSEVT_RESUME_BEGIN, .unlockDM] ++
  sendevtAlldevice devs TDV_RESUME true ++ sendevtAlldevice devs TDV_RESUME false ++
  [.unlockREG, .evtSsy TSEVT_RESUME_DONE]

/-- What is done between two locks of the device management, or without one. The other calls that
begin with `GetResCB` do to the requests what `TD_CHECK` does: nothing. -/
inductive SusStep (T R : Type)
  | getResCB (t : T) (rescb : Option R)
  | susDev (t : T) (mode : BitVec 32)
  | devmgrStartup (r : R)
  /-- What `devmgr_cleanup` has seen may be old. -/
  | devmgrCleanup (r : R) (looked : Bool)
  | cleanResblk (r : R)

namespace SusStep

variable {T R : Type} [DecidableEq T] [DecidableEq R]

/-- A task is in one call only, and `tk_cln_ssy` calls `devmgr_cleanup` first. -/
def Enabled (s : SusSys T R) : SusStep T R → Prop
  | getResCB t _ => s.got t = none
  | susDev t _ => s.got t ≠ none
  | devmgrStartup _ => True
  | devmgrCleanup _ _ => True
  | cleanResblk r => 0 < s.cleaning r

def exec (s : SusSys T R) : SusStep T R → SusSys T R
  | getResCB t rescb => (s.getResCB t rescb).2
  | susDev t mode =>
    match s.got t with
    | none => s
    | some r => { (s.susDev r mode).2 with got := update s.got t none }
  | devmgrStartup r => s.devmgrStartup r
  | devmgrCleanup r looked =>
    { s.devmgrCleanup r looked with cleaning := update s.cleaning r (s.cleaning r + 1) }
  | cleanResblk r => { s.cleanResblk r with cleaning := update s.cleaning r (s.cleaning r - 1) }

/-- The requests that are forgotten, but not subtracted from `DisSusCnt`. -/
def forgotten (s : SusSys T R) : SusStep T R → ℤ
  | devmgrStartup r => (s.rescb r).dissus
  | cleanResblk r => (s.rescb r).dissus
  | _ => 0

/-- `devmgr_startup` comes before the first use, and no task of the resource group is in
`tk_sus_dev` while `tk_cln_ssy` works on it. -/
def Orderly (s : SusSys T R) : SusStep T R → Prop
  | getResCB _ rescb => ∀ r ∈ rescb, s.cleaning r = 0
  | devmgrStartup r => (s.rescb r).openq = false
  | devmgrCleanup r looked => looked = (s.rescb r).openq ∧ ∀ t, s.got t ≠ some r
  | _ => True

end SusStep

/-- The steps of all tasks, in any order; `lost` is how many requests were forgotten. -/
inductive SusRun {T R : Type} [DecidableEq T] [DecidableEq R] (orderly : Prop) :
    SusSys T R → ℤ → Prop
  | start : SusRun orderly .start 0
  | step {s : SusSys T R} {lost : ℤ} (run : SusRun orderly s lost) (step : SusStep T R)
      (enabled : step.Enabled s) (h : orderly → step.Orderly s) :
      SusRun orderly (step.exec s) (lost + step.forgotten s)

end SmpTKernel
