import SmpTKernel.Basic
import SmpTKernel.Lib.Stacks

/-!
# Subsystems

`subsystem_initialize`, `_tk_def_ssy`, `_tk_sta_ssy`, `_tk_cln_ssy` and `_tk_evt_ssy` of
`subsystem.c`. The control blocks of one priority are linked, from `ssypri_table` on. The loops over
all subsystems are not critical sections: nobody, the functions that are called included, defines or
deletes a subsystem meanwhile. What `Icalloc` returns is an argument.
-/

namespace SmpTKernel

open LinkedStack

/-- Where a function is. -/
abbrev Fp := ℕ

structure SsyCfg where
  max_ssyid : ℤ
  max_ssypri : ℤ
  max_resid : ℤ

namespace SsyCfg

variable (cfg : SsyCfg)

def chkSsyid (ssid : ℤ) : Bool := 1 ≤ ssid ∧ ssid ≤ cfg.max_ssyid

def chkSsypri (ssypri : ℤ) : Bool := 1 ≤ ssypri ∧ ssypri ≤ cfg.max_ssypri

def chkSsyResid (resid : ℤ) : Bool := 1 ≤ resid ∧ resid ≤ cfg.max_resid

def numSsypri : ℕ := cfg.max_ssypri.toNat

end SsyCfg

def indexSsy (ssid : ℤ) : ℕ := (ssid - 1).toNat

def ssypriIndex (ssypri : ℤ) : ℕ := (ssypri - 1).toNat

/-- Adjust alignment of resource control block. -/
def roundResblksz (resblksz : ℤ) : ℤ := INT (UINT (resblksz + 3) / 4 * 4)

/-- What `Icalloc` is asked for: it multiplies in words. -/
def SsyCfg.resblkBytes (cfg : SsyCfg) (resblksz : ℤ) : ℕ :=
  UINT cfg.max_resid * UINT (roundResblksz resblksz) % 2 ^ 32

/-- `memset(a, 0, n)` -/
def memset0 (a n : ℕ) (bytes : Bytes) : Bytes := fun o => if a ≤ o ∧ o < a + n then 0 else bytes o

/-- The packet of `tk_def_ssy`. The handler is not `no_support`, which is a function of the
kernel. -/
structure T_DSSY where
  ssyatr : BitVec 32
  ssypri : ℤ
  svchdr : Fp
  breakfn : Option Fp
  startupfn : Option Fp
  cleanupfn : Option Fp
  eventfn : Option Fp
  resblksz : ℤ
  deriving DecidableEq

/-- Subsystem control block; the link is by itself. -/
structure Ssycb where
  ssyatr : BitVec 32
  ssypri : ℤ
  /-- `none` for `no_support`. -/
  svchdr : Option Fp
  breakfn : Option Fp
  startupfn : Option Fp
  cleanupfn : Option Fp
  eventfn : Option Fp
  resblksz : ℤ
  /-- The block of memory. -/
  resblk : Option ℕ

/-- What the registration stores. -/
def T_DSSY.ssycb (pk_dssy : T_DSSY) (resblk : Option ℕ) : Ssycb where
  ssyatr := pk_dssy.ssyatr
  ssypri := pk_dssy.ssypri
  svchdr := some pk_dssy.svchdr
  breakfn := pk_dssy.breakfn
  startupfn := pk_dssy.startupfn
  cleanupfn := pk_dssy.cleanupfn
  eventfn := pk_dssy.eventfn
  resblksz := pk_dssy.resblksz
  resblk := resblk

/-- Not registered. -/
def Ssycb.clear (ssycb : Ssycb) : Ssycb :=
  { ssycb with
    svchdr := none, breakfn := none, startupfn := none, cleanupfn := none, eventfn := none }

structure SsySys where
  ssycb_table : ℕ → Ssycb
  /-- Same subsystem priority link. -/
  link : ℕ → Option ℕ
  ssypri_table : ℕ → Option ℕ
  /-- The blocks of memory that are in use, and their sizes. -/
  mem : ℕ → Option ℕ
  /-- What is stored in the memory. -/
  bytes : Bytes

/-- What the loops over subsystems do, by control block. -/
inductive SsyAct
  | startup (x : ℕ) (fn : Fp) (resid info : ℤ)
  | cleanup (x : ℕ) (fn : Fp) (resid info : ℤ)
  /-- `clean_resblk`. -/
  | clean (x : ℕ)
  | event (x : ℕ) (fn : Fp) (evttyp resid info : ℤ)
  deriving DecidableEq

/-- The startup function, if there is one. -/
def startupActs (startupfn : Option Fp) (x : ℕ) (resid info : ℤ) : List SsyAct :=
  (startupfn.map fun fn => SsyAct.startup x fn resid info).toList

/-- The cleanup function, if there is one, and `clean_resblk`. -/
def cleanupActs (cleanupfn : Option Fp) (x : ℕ) (resid info : ℤ) : List SsyAct :=
  (cleanupfn.map fun fn => SsyAct.cleanup x fn resid info).toList ++ [.clean x]

/-- The event function, if there is one. -/
def eventActs (eventfn : Option Fp) (x : ℕ) (evttyp resid info : ℤ) : List SsyAct :=
  (eventfn.map fun fn => SsyAct.event x fn evttyp resid info).toList

/-- The error code of `_tk_evt_ssy`: the latest error, when the function of `x` returns `er x`. -/
def latestError (er : ℕ → ER) : List SsyAct → ER :=
  List.foldl (fun ercd act =>
    match act with
    | .event x _ _ _ _ => if er x < 0 then er x else ercd
    | _ => ercd) E_OK

namespace SsySys

variable (s : SsySys)

/-- `subsystem_initialize`; the tables come from `Imalloc`. -/
def subsystemInitialize (ssycb_table : ℕ → Ssycb) (link : ℕ → Option ℕ) (bytes : Bytes) :
    SsySys where
  ssycb_table x := (ssycb_table x).clear
  link := link
  ssypri_table _ := none
  mem _ := none
  bytes := bytes

/-- `Icalloc` takes a block of `sz` bytes and clears it. -/
def newBlk (resblk : Option ℕ) (sz : ℕ) : SsySys :=
  match resblk with
  | none => s
  | some blk =>
    { s with mem := Function.update s.mem blk (some sz), bytes := memset0 blk sz s.bytes }

/-- `if ( resblk != NULL ) Ifree(resblk)`. -/
def ifree (resblk : Option ℕ) : SsySys :=
  match resblk with
  | none => s
  | some blk => { s with mem := Function.update s.mem blk none }

/-- Register. -/
def register (x : ℕ) (pk_dssy : T_DSSY) (resblk : Option ℕ) : ER × SsySys :=
  if (s.ssycb_table x).svchdr ≠ none then (E_OBJ, s.ifree resblk)
  else
    (E_OK, { s with
      ssycb_table := Function.update s.ssycb_table x (pk_dssy.ssycb resblk)
      link := Function.update s.link x (s.ssypri_table (ssypriIndex pk_dssy.ssypri))
      ssypri_table := Function.update s.ssypri_table (ssypriIndex pk_dssy.ssypri) (some x) })

/-- Delete, with the links that the loop left. -/
def removed (x : ℕ) (r : (ℕ → Option ℕ) × (ℕ → Option ℕ)) : SsySys :=
  ifree { s with
    ssycb_table := Function.update s.ssycb_table x (s.ssycb_table x).clear
    link := r.1
    ssypri_table := r.2 } (s.ssycb_table x).resblk

/-- Delete; the loop that looks for the control block has `fuel` turns. -/
def delete (fuel : ℕ) (x : ℕ) : Option (ER × SsySys) :=
  if (s.ssycb_table x).svchdr = none then some (E_NOEXS, s)
  else
    (unlink s.link s.ssypri_table x fuel (.top (ssypriIndex (s.ssycb_table x).ssypri))).map fun r =>
      (E_OK, s.removed x r)

def tkDefSsy (cfg : SsyCfg) (fuel : ℕ) (ssid : ℤ) (pk_dssy : Option T_DSSY) (icalloc : Option ℕ) :
    Option (ER × SsySys) :=
  if !cfg.chkSsyid ssid then some (E_ID, s)
  else
    match pk_dssy with
    | none => s.delete fuel (indexSsy ssid)
    | some pk_dssy =>
      -- `TA_NULL` and `TA_GP` are 0
      if pk_dssy.ssyatr ≠ 0 then some (E_RSATR, s)
      else if !cfg.chkSsypri pk_dssy.ssypri then some (E_PAR, s)
      else if ¬0 ≤ pk_dssy.resblksz then some (E_PAR, s)
      else
        let resblk := if pk_dssy.resblksz > 0 then icalloc else none
        if pk_dssy.resblksz > 0 ∧ resblk = none then some (E_NOMEM, s)
        else
          let s := s.newBlk resblk (cfg.resblkBytes pk_dssy.resblksz)
          some (s.register (indexSsy ssid) pk_dssy resblk)

/-! ## Loops over subsystems -/

/-- The control blocks that the two loops get to, for the indices of the outer one. -/
def gather (fuel : ℕ) : List ℕ → Option (List ℕ)
  | [] => some []
  | i :: rest => (walk s.link fuel (s.ssypri_table i)).bind fun l => (gather fuel rest).map (l ++ ·)

def tkStaSsy (cfg : SsyCfg) (fuel : ℕ) (ssid resid info : ℤ) (ddsp : Bool) :
    Option (ER × List SsyAct) :=
  if !(cfg.chkSsyid ssid || ssid = 0) then some (E_ID, [])
  else if !cfg.chkSsyResid resid then some (E_ID, [])
  else if ddsp then some (E_CTX, [])
  else if ssid > 0 then
    if (s.ssycb_table (indexSsy ssid)).svchdr = none then some (E_NOEXS, [])
    else
      some (E_OK,
        startupActs (s.ssycb_table (indexSsy ssid)).startupfn (indexSsy ssid) resid info)
  -- in the order of descending priorities
  else
    (s.gather fuel (List.range cfg.numSsypri)).map fun l =>
      (E_OK, l.flatMap fun x => startupActs (s.ssycb_table x).startupfn x resid info)

def tkClnSsy (cfg : SsyCfg) (fuel : ℕ) (ssid resid info : ℤ) (ddsp : Bool) :
    Option (ER × List SsyAct) :=
  if !(cfg.chkSsyid ssid || ssid = 0) then some (E_ID, [])
  else if !cfg.chkSsyResid resid then some (E_ID, [])
  else if ddsp then some (E_CTX, [])
  else if ssid > 0 then
    if (s.ssycb_table (indexSsy ssid)).svchdr = none then some (E_NOEXS, [])
    else
      some (E_OK,
        cleanupActs (s.ssycb_table (indexSsy ssid)).cleanupfn (indexSsy ssid) resid info)
  -- in the order of ascending priorities
  else
    (s.gather fuel (List.range cfg.numSsypri).reverse).map fun l =>
      (E_OK, l.flatMap fun x => cleanupActs (s.ssycb_table x).cleanupfn x resid info)

def tkEvtSsy (cfg : SsyCfg) (fuel : ℕ) (er : ℕ → ER) (ssid evttyp resid info : ℤ) (ddsp : Bool) :
    Option (ER × List SsyAct) :=
  if !(cfg.chkSsyid ssid || ssid = 0) then some (E_ID, [])
  else if !(cfg.chkSsyResid resid || resid = 0) then some (E_ID, [])
  else if ddsp then some (E_CTX, [])
  else if ssid > 0 then
    let x := indexSsy ssid
    if (s.ssycb_table x).svchdr = none then some (E_NOEXS, [])
    else
      let acts := eventActs (s.ssycb_table x).eventfn x evttyp resid info
      some (if (s.ssycb_table x).eventfn = none then E_OK else er x, acts)
  else
    -- even number: ascending priorities, odd number: descending priorities
    let order :=
      if evttyp.tmod 2 = 0 then (List.range cfg.numSsypri).reverse else List.range cfg.numSsypri
    (s.gather fuel order).map fun l =>
      let acts := l.flatMap fun x => eventActs (s.ssycb_table x).eventfn x evttyp resid info
      (latestError er acts, acts)

/-- `clean_resblk`, for the resource group of index `idx`; addresses are words. -/
def cleanResblk (idx : ℤ) (x : ℕ) : SsySys :=
  match (s.ssycb_table x).resblk with
  | none => s
  | some blk =>
    let sz := roundResblksz (s.ssycb_table x).resblksz
    { s with bytes := memset0 (UINT (blk + sz * idx)) (UINT sz) s.bytes }

/-- What the kernel itself does in the loops. -/
def runActs (idx : ℤ) : List SsyAct → SsySys → SsySys
  | [], s => s
  | .clean x :: rest, s => runActs idx rest (s.cleanResblk idx x)
  | _ :: rest, s => runActs idx rest s

end SsySys

end SmpTKernel
