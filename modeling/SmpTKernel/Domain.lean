import SmpTKernel.ObjectId

/-!
# Domains

`mp_domain.c` and the part of creation and deletion that all kinds of objects share. An object
belongs to the domain named in its ID; a domain belongs to its parent the same way, and `objcnt`
counts the objects of a domain. The rest of the control blocks, the tables of object names and the
free queues' links are left out. `dom` and `serial` are not in the source: they number the domains
in the order of their creation, to tell the domains that had the same control block one after the
other.
-/

namespace SmpTKernel

/-- `MP_OBJECT_TYPE`. -/
inductive ObjType
  | tsk | sem | flg | mbx | mtx | mbf | por | mpf | mpl | cyc | alm | dom
  deriving DecidableEq, Repr

/-- System configuration: the largest number of each kind, and `oaplimit`. -/
structure DomCfg where
  max : ObjType → ℕ
  oaplimit : ℕ

/-- The smallest number of each kind. -/
def minId : ObjType → ℕ
  | .dom => 0
  | _ => 1

/-- What the control blocks of all kinds have: the ID, 0 if there is no object; the attributes; for
a task, whether its deletion is left to the dispatcher (the task is `TS_NONEXIST` then). -/
structure ObjCb where
  id : ID
  atr : ℕ
  stkfree : Bool
  /-- The domain the object was created in. -/
  dom : ℕ
  deriving DecidableEq, Repr

/-- The control blocks by kind and index, and the counters of the domains. -/
structure DomState where
  cb : ObjType × ℕ → ObjCb
  free : ObjType → List ℕ
  objcnt : ℕ → ℕ
  /-- The domain in the control block. -/
  serial : ℕ → ℕ
  /-- Number of domains created so far. -/
  made : ℕ

abbrev TA_PRIVATE : ℕ := 0x00040000
abbrev TA_PROTECTED : ℕ := 0x00080000
abbrev TA_PUBLIC : ℕ := 0
abbrev TA_RNG3 : ℕ := 0x00000300

/-- Get protection attribute. -/
def MP_GET_PATR (atr : ℕ) : ℕ := atr &&& (TA_PRIVATE ||| TA_PROTECTED ||| TA_PUBLIC)

/-- `INDEX_TSK` and so on. -/
def INDEX (t : ObjType) (id : ID) : ℕ := GET_OBJID id - minId t

/-- `ID_TSK` and so on. -/
def ID_OF (t : ObjType) (index : ℕ) : ID := SET_PRID (index + minId t)

/-- `NUM_TSKID` and so on. -/
def DomCfg.num (cfg : DomCfg) (t : ObjType) : ℕ := cfg.max t + 1 - minId t

/-- `CHECK_TSKID` and so on. -/
def DomCfg.chkId (cfg : DomCfg) (t : ObjType) (id : ID) : Bool :=
  minId t ≤ GET_OBJID id ∧ GET_OBJID id ≤ cfg.max t ∧ GET_DOMID id ≤ cfg.max .dom ∧ GET_PRID id = 1

/-- The calling task. -/
abbrev TSK_SELF : ID := 0

/-- Who calls: whether from a task-independent part, the index of the running task, and how many
rounds of the loop over the domains we wait for. -/
structure Caller where
  indp : Bool
  tsk : ℕ
  rounds : ℕ

variable (cfg : DomCfg) (s : DomState)

/-- `get_domcb(domid)->domid`. -/
def domcbId (domid : ID) : ID := (s.cb (.dom, INDEX .dom domid)).id

/-- Get the ID of the domain that an object belongs to. -/
def mpGetDomidFromId (id : ID) : ID := domcbId s (GET_DOMID id)

/-! ## Protection -/

/-- `mp_get_plevel`. -/
def mpGetPlevel (tsk : ℕ) : ℕ := ((s.cb (.tsk, tsk)).atr &&& TA_RNG3) >>> 8

/-- Check exception condition. -/
def checkExceptionCondition (c : Caller) (atr : ℕ) : Bool :=
  if MP_GET_PATR atr = TA_PUBLIC then true
  else if c.indp then true
  else mpGetPlevel s c.tsk ≤ cfg.oaplimit

/-- Trace domain hierarchy for protection check; `none` if the loop goes on. -/
def traceDomainForPchk (domid : ID) (atr : ℕ) : ℕ → ID → Option Bool
  | 0, _ => none
  | rounds + 1, tskdomid =>
    let tskdomid := mpGetDomidFromId s tskdomid
    if tskdomid = domid then some true
    else if MP_GET_PATR atr = TA_PROTECTED ∧ tskdomid ≠ MP_KDMID_SELF then
      traceDomainForPchk domid atr rounds tskdomid
    else some false

/-- Existence check of domain. -/
def mpExistenceCheckOfDomain (domid : ID) : ER :=
  if domcbId s domid = 0 then E_NOEXS
  else if !MP_CMP_DOMIDPART (domcbId s domid) domid then E_NOEXS
  else E_OK

/-- Protection attribute check at object creation. -/
def mpCheckProtectionCre (c : Caller) (domid : ID) (atr : ℕ) : Option ER :=
  if checkExceptionCondition cfg s c atr then some E_OK
  else
    (traceDomainForPchk s (SET_PRID domid) atr c.rounds (s.cb (.tsk, c.tsk)).id).map fun ok =>
      if ok then E_OK else E_PAR

/-- Check domain and protection. -/
def mpCheckDomainAndProtection (c : Caller) (argid objid : ID) (objatr : ℕ) : Option ER :=
  if !MP_CMP_DOMIDPART argid objid then some E_NOEXS
  else if checkExceptionCondition cfg s c objatr then some E_OK
  else
    (traceDomainForPchk s (mpGetDomidFromId s objid) objatr c.rounds
      (s.cb (.tsk, c.tsk)).id).map fun ok =>
      if ok then E_OK else E_DACV

/-! ## Registration -/

/-- Register object in the domain. -/
def mpRegisterObjectInDomain (domid : ID) : DomState :=
  let d := INDEX .dom domid
  { s with objcnt := Function.update s.objcnt d ((s.objcnt d + 1) % 2 ^ 32) }

/-- Unregister object in the domain. -/
def mpUnregisterObjectInDomain (objid : ID) : DomState :=
  let d := INDEX .dom (mpGetDomidFromId s objid)
  { s with objcnt := Function.update s.objcnt d (UINT ((s.objcnt d : ℤ) - 1)) }

/-- The new object `i` of a kind in the domain `domid`. -/
def putObject (t : ObjType) (i : ℕ) (domid : ID) (atr : ℕ) : DomState :=
  let cb : ObjCb :=
    ⟨MP_GEN_DOMIDPART domid ||| ID_OF t i, atr, false, s.serial (INDEX .dom domid)⟩
  mpRegisterObjectInDomain { s with cb := Function.update s.cb (t, i) cb } domid

/-- The object `i` is deleted; `id` is the ID it is deleted by. -/
def dropObject (t : ObjType) (i : ℕ) (id : ID) : DomState :=
  let s := mpUnregisterObjectInDomain s id
  { s with
    cb := Function.update s.cb (t, i) ⟨0, 0, false, 0⟩
    free := Function.update s.free t (s.free t ++ [i]) }

/-! ## System calls -/

/-- `_tk_cre_tsk` and so on; `domid` is there with `TA_DOMID`, `oname` is what the check of the
object name gives. No result if the protection check goes on. -/
def creObj (t : ObjType) (c : Caller) (domid : Option ID) (atr : ℕ) (oname : ER) :
    DomState × Option ℤ :=
  if MP_GET_PATR atr ≠ TA_PUBLIC ∧ MP_GET_PATR atr ≠ TA_PROTECTED ∧
      MP_GET_PATR atr ≠ TA_PRIVATE then
    (s, some E_RSATR)
  else if domid.any fun d => !cfg.chkId .dom d then (s, some E_ID)
  else if domid.any fun d => mpExistenceCheckOfDomain s d ≠ E_OK then (s, some E_NOEXS)
  else if oname ≠ E_OK then (s, some oname)
  else
    let domid := domid.getD MP_KDMID
    match mpCheckProtectionCre cfg s c domid atr with
    | none => (s, none)
    | some ercd =>
      if ercd ≠ E_OK then (s, some ercd)
      else
        match s.free t with
        | [] => (s, some E_LIMIT)
        | i :: rest =>
          (putObject { s with free := Function.update s.free t rest } t i domid atr,
            some (MP_GEN_DOMIDPART domid ||| ID_OF t i : ℕ))

/-- `_tk_del_sem` and so on, for all kinds but tasks and domains. -/
def delObj (t : ObjType) (c : Caller) (id : ID) : DomState × Option ℤ :=
  if !cfg.chkId t id then (s, some E_ID)
  else
    let cb := s.cb (t, INDEX t id)
    if cb.id = 0 then (s, some E_NOEXS)
    else
      match mpCheckDomainAndProtection cfg s c id cb.id cb.atr with
      | none => (s, none)
      | some ercd =>
        if ercd ≠ E_OK then (s, some ercd) else (dropObject s t (INDEX t id) id, some E_OK)

/-- `_del_tsk`. -/
def delTask (i : ℕ) : DomState := dropObject s .tsk i (s.cb (.tsk, i)).id

/-- `_tk_del_tsk`, after its checks of the number and for the caller itself: `dormant` and `running`
say whether the task is in `TS_DORMANT` and whether it still runs on a processor. -/
def tkDelTsk (c : Caller) (id : ID) (dormant running : Bool) : DomState × Option ℤ :=
  if !cfg.chkId .tsk id then (s, some E_ID)
  else
    let i := INDEX .tsk id
    let cb := s.cb (.tsk, i)
    if cb.id = 0 ∨ cb.stkfree then (s, some E_NOEXS)
    else
      match mpCheckDomainAndProtection cfg s c id cb.id cb.atr with
      | none => (s, none)
      | some ercd =>
        if ercd ≠ E_OK then (s, some ercd)
        else if !dormant then (s, some E_OBJ)
        else if running then
          ({ s with cb := Function.update s.cb (.tsk, i) { cb with stkfree := true } }, some E_OK)
        else (delTask s i, some E_OK)

/-- `into_dsp` on the processor of the task: a deletion that was left to it. -/
def intoDsp (i : ℕ) : DomState := if (s.cb (.tsk, i)).stkfree then delTask s i else s

/-- `_tk_exd_tsk`: the running task ends; the lock is held until its dispatcher has deleted it. -/
def tkExdTsk (i : ℕ) : DomState :=
  intoDsp { s with cb := Function.update s.cb (.tsk, i) { s.cb (.tsk, i) with stkfree := true } } i

/-- `_tk_cre_dom`. -/
def tkCreDom (domid : Option ID) (atr : ℕ) (oname : ER) : DomState × ℤ :=
  if domid.any fun d => !cfg.chkId .dom d then (s, E_ID)
  else if domid.any fun d => mpExistenceCheckOfDomain s d ≠ E_OK then (s, E_NOEXS)
  else if oname ≠ E_OK then (s, oname)
  else
    let bdomid := domid.getD MP_KDMID
    match s.free .dom with
    | [] => (s, E_LIMIT)
    | i :: rest =>
      let s := putObject { s with free := Function.update s.free .dom rest } .dom i bdomid atr
      ({ s with
          objcnt := Function.update s.objcnt i 0
          serial := Function.update s.serial i s.made
          made := s.made + 1 },
        (MP_GEN_DOMIDPART bdomid ||| ID_OF .dom i : ℕ))

/-- `_tk_del_dom`. -/
def tkDelDom (domid : ID) : DomState × ER :=
  if !cfg.chkId .dom domid then (s, E_ID)
  else if domid = MP_KDMID_SELF then (s, E_OBJ)
  else if mpExistenceCheckOfDomain s domid ≠ E_OK then (s, E_NOEXS)
  else if s.objcnt (INDEX .dom domid) ≠ 0 then (s, E_OBJ)
  else (dropObject s .dom (INDEX .dom domid) domid, E_OK)

/-- `_tk_fdel_dom`. -/
def tkFdelDom (domid : ID) : DomState × ER :=
  if !cfg.chkId .dom domid then (s, E_ID)
  else if domid = MP_KDMID_SELF then (s, E_OBJ)
  else if mpExistenceCheckOfDomain s domid ≠ E_OK then (s, E_NOEXS)
  else (dropObject s .dom (INDEX .dom domid) domid, E_OK)

/-- `mp_domain_initialize`, with no object of the other kinds yet. -/
def mpDomainInitialize : DomState where
  cb o := if o = (.dom, 0) then ⟨SET_PRID MP_KDMID, TA_PUBLIC, false, 0⟩ else ⟨0, 0, false, 0⟩
  free t := if t = .dom then (List.range (cfg.num .dom)).tail else List.range (cfg.num t)
  objcnt _ := 0
  serial _ := 0
  made := 1

end SmpTKernel
