import SmpTKernel.Domain

/-!
# Object names

The string functions of `libstr`, and the part of `mp_domain.c` about names. A name is what stands
in an array of `OBJECT_NAME_LENGTH` bytes up to the first NUL. Every kind of object has an array of
keys beside its control blocks; a key is the hash of the name and the number of the domain. The
critical sections of creation and deletion are those of the model of the domains, with the names.
-/

namespace SmpTKernel

abbrev E_ONAME : ER := -69
abbrev OBJECT_NAME_LENGTH : ℕ := 8

/-- Use object name. -/
abbrev TA_ONAME : ℕ := 0x00000040

/-! ## `string.c` -/

/-- `strncmp`: perform text string comparison of specified length; `n` counts down from the length,
`i` is how far the two pointers have moved. -/
def strncmpFrom (s1 s2 : Bytes) : ℕ → ℕ → ℤ
  | n, i =>
    if s1 i ≠ 0 then
      match n with
      -- the result is still that of equal bytes
      | 0 => 0
      | n + 1 =>
        let result : ℤ := (s1 i).toNat - (s2 i).toNat
        if result ≠ 0 then result else strncmpFrom s1 s2 n (i + 1)
    else if n ≠ 0 then (s1 i).toNat - (s2 i).toNat
    else 0

def strncmp (s1 s2 : Bytes) (n : ℕ) : ℤ := strncmpFrom s1 s2 n 0

/-- The second loop of `strncpy`. -/
def strncpyPad : ℕ → ℕ → Bytes → Bytes
  | 0, _, dst => dst
  | n + 1, i, dst => strncpyPad n (i + 1) (Function.update dst i 0)

/-- The first loop of `strncpy`. -/
def strncpyFrom (src : Bytes) : ℕ → ℕ → Bytes → Bytes
  | 0, _, dst => dst
  | n + 1, i, dst =>
    let dst := Function.update dst i (src i)
    if src i ≠ 0 then strncpyFrom src n (i + 1) dst else strncpyPad n (i + 1) dst

/-- `strncpy`: copy text string of specified length. -/
def strncpy (dst src : Bytes) (n : ℕ) : Bytes := strncpyFrom src n 0 dst

/-! ## Keys -/

/-- The loop of `calc_hash`. -/
def calcHashFrom (oname : Bytes) : ℕ → ℕ → ℕ → ℕ × ℕ
  | 0, i, hash => (i, hash)
  | n + 1, i, hash =>
    if oname i = 0 then (i, hash)
    else calcHashFrom oname n (i + 1) ((hash * 17 + (oname i).toNat) % 2 ^ 16)

/-- Calculate hash: the length of the name and the hash. -/
def calcHash (oname : Bytes) : ℕ × ℕ := calcHashFrom oname OBJECT_NAME_LENGTH 0 0

abbrev HASH_ENABLE_BIT : ℕ := 0x80000000

def MAKE_HASH_KEY (domid : ID) (hash : ℕ) : ℕ := HASH_ENABLE_BIT ||| MP_GEN_DOMIDPART domid ||| hash

/-- Default object name. -/
def defaultObjectName : Bytes := fun _ => 0

/-- The control blocks with the names in them and `hashcb_table`. What follows the array of a name
in a control block is part of `oname` here. -/
structure NameState where
  dom : DomState
  key : ObjType × ℕ → ℕ
  oname : ObjType × ℕ → Bytes

namespace NameState

variable (cfg : DomCfg) (s : NameState)

/-- The loop over the keys of `search_hashcb` and `mp_change_oname`. -/
def findKey (t : ObjType) (key : ℕ) (oname : Bytes) : Option ℕ :=
  (List.range (cfg.num t)).find? fun i =>
    s.key (t, i) = key ∧ strncmp (s.oname (t, i)) oname OBJECT_NAME_LENGTH = 0

/-- Search an object name of the hashcb. -/
def searchHashcb (t : ObjType) (domid : ID) (oname : Bytes) : Option ℕ :=
  let (len, hash) := calcHash oname
  if len ≠ 0 then s.findKey cfg t (MAKE_HASH_KEY domid hash) oname else none

/-- Existence check of oname. -/
def mpExistenceCheckOfOname (t : ObjType) (domid : ID) (oname : Bytes) : ER :=
  if s.searchHashcb cfg t domid oname = none then E_OK else E_ONAME

/-- Copy the name into the control block. -/
def setOname (o : ObjType × ℕ) (oname : Bytes) : NameState :=
  { s with oname := Function.update s.oname o (strncpy (s.oname o) oname OBJECT_NAME_LENGTH) }

def setKey (o : ObjType × ℕ) (key : ℕ) : NameState := { s with key := Function.update s.key o key }

/-- Change oname. -/
def mpChangeOname (t : ObjType) (objid : ID) (oname : Bytes) (idx : ℕ) : NameState × ER :=
  let (len, hash) := calcHash oname
  let key := if len ≠ 0 then MAKE_HASH_KEY (mpGetDomidFromId s.dom objid) hash else 0
  if len ≠ 0 ∧ s.findKey cfg t key oname ≠ none then (s, E_ONAME)
  else ((s.setOname (t, idx) oname).setKey (t, idx) key, E_OK)

/-- Search oname. -/
def mpSearchOname (t : ObjType) (domid : ID) (oname : Bytes) : ℤ :=
  let ercd := mpExistenceCheckOfDomain s.dom domid
  if ercd ≠ E_OK then ercd
  else
    match s.searchHashcb cfg t domid oname with
    | none => E_NOEXS
    | some idx => ((s.dom.cb (t, idx)).id : ℤ)

/-- The part of `mp_register_object_in_domain` about the name. -/
def registerName (domid : ID) (o : ObjType × ℕ) (oname : Bytes) : NameState :=
  let (len, hash) := calcHash oname
  s.setKey o (if len = 0 then 0 else MAKE_HASH_KEY domid hash)

/-- The part of `mp_unregister_object_in_domain` about the name. -/
def unregisterName (o : ObjType × ℕ) : NameState := s.setKey o 0

/-! ## Creation and deletion -/

/-- Check object name, in the creation of all kinds. -/
def checkOname (t : ObjType) (domid : Option ID) (atr : ℕ) (oname : Bytes) : ER :=
  if atr &&& TA_ONAME ≠ 0 then s.mpExistenceCheckOfOname cfg t (domid.getD MP_KDMID) oname else E_OK

/-- The end of a creation, unless it fails: set object name and register it. -/
def created (t : ObjType) (domid : Option ID) (atr : ℕ) (oname : Bytes) (r : DomState × Option ℤ) :
    NameState × Option ℤ :=
  let s := { s with dom := r.1 }
  match r.2 with
  | none => (s, none)
  | some ercd =>
    if ercd < E_OK then (s, some ercd)
    else
      let oname := if atr &&& TA_ONAME ≠ 0 then oname else defaultObjectName
      let o := (t, INDEX t ercd.toNat)
      ((s.setOname o oname).registerName (domid.getD MP_KDMID) o oname, some ercd)

/-- `_tk_cre_tsk` and so on, all kinds but domains. -/
def creObj (t : ObjType) (c : Caller) (domid : Option ID) (atr : ℕ) (oname : Bytes) :
    NameState × Option ℤ :=
  s.created t domid atr oname
    (SmpTKernel.creObj cfg s.dom t c domid atr (s.checkOname cfg t domid atr oname))

/-- `_tk_cre_dom`. -/
def tkCreDom (domid : Option ID) (atr : ℕ) (oname : Bytes) : NameState × Option ℤ :=
  let r := SmpTKernel.tkCreDom cfg s.dom domid atr (s.checkOname cfg .dom domid atr oname)
  s.created .dom domid atr oname (r.1, some r.2)

/-- The name goes with the object `o` if the deletion is accepted. -/
def deleted (o : ObjType × ℕ) (r : DomState × Option ℤ) : NameState × Option ℤ :=
  let s := { s with dom := r.1 }
  (if r.2 = some E_OK then s.unregisterName o else s, r.2)

/-- `_tk_del_sem` and so on, for all kinds but tasks and domains. -/
def delObj (t : ObjType) (c : Caller) (id : ID) : NameState × Option ℤ :=
  s.deleted (t, INDEX t id) (SmpTKernel.delObj cfg s.dom t c id)

/-- `into_dsp`. -/
def intoDsp (i : ℕ) : NameState :=
  let s' := { s with dom := SmpTKernel.intoDsp s.dom i }
  if (s.dom.cb (.tsk, i)).stkfree then s'.unregisterName (.tsk, i) else s'

/-- `_tk_del_tsk`; the name of a task that still runs stays until its dispatcher deletes the
task. -/
def tkDelTsk (c : Caller) (id : ID) (dormant running : Bool) : NameState × Option ℤ :=
  let r := SmpTKernel.tkDelTsk cfg s.dom c id dormant running
  if running then ({ s with dom := r.1 }, r.2) else s.deleted (.tsk, INDEX .tsk id) r

/-- `_tk_exd_tsk`. -/
def tkExdTsk (i : ℕ) : NameState :=
  ({ s with dom := SmpTKernel.tkExdTsk s.dom i }).unregisterName (.tsk, i)

/-- `_tk_del_dom`. -/
def tkDelDom (domid : ID) : NameState × ER :=
  let r := SmpTKernel.tkDelDom cfg s.dom domid
  let r' := s.deleted (.dom, INDEX .dom domid) (r.1, some r.2)
  (r'.1, r.2)

/-! ## Names of objects that are there -/

/-- `semaphore_setname` and so on, for all kinds but tasks. -/
def objSetname (t : ObjType) (id : ID) (name : Bytes) : NameState × ER :=
  if !cfg.chkId t id then (s, E_ID)
  else
    let cb := s.dom.cb (t, INDEX t id)
    if cb.id = 0 then (s, E_NOEXS)
    else if !MP_CMP_DOMIDPART id cb.id then (s, E_NOEXS)
    else if cb.atr &&& TA_ONAME = 0 then (s, E_OBJ)
    else s.mpChangeOname cfg t id name (INDEX t id)

/-- `get_tcb_self` -/
def getTcbSelf (c : Caller) (tskid : ID) : ℕ := if tskid = TSK_SELF then c.tsk else INDEX .tsk tskid

/-- Set object name to control block; a task that is to be deleted does not exist. -/
def taskSetname (c : Caller) (tskid : ID) (name : Bytes) : NameState × ER :=
  if !(!c.indp && tskid = TSK_SELF || cfg.chkId .tsk tskid) then (s, E_ID)
  else
    let tcb := s.dom.cb (.tsk, getTcbSelf c tskid)
    if tcb.id = 0 ∨ tcb.stkfree then (s, E_NOEXS)
    else if tskid ≠ TSK_SELF ∧ !MP_CMP_DOMIDPART tskid tcb.id then (s, E_NOEXS)
    else if tcb.atr &&& TA_ONAME = 0 then (s, E_OBJ)
    else s.mpChangeOname cfg .tsk tcb.id name (INDEX .tsk tcb.id)

/-- `object_setname`, behind `_td_set_dsname`. -/
def objectSetname (t : ObjType) (c : Caller) (id : ID) (name : Bytes) : NameState × ER :=
  if t = .tsk then s.taskSetname cfg c id name else s.objSetname cfg t id name

/-- Protection attribute check for find object. -/
def mpCheckProtectionFnd (c : Caller) (objid : ID) (objatr : ℕ) : Option ER :=
  if checkExceptionCondition cfg s.dom c objatr then some E_OK
  else
    (traceDomainForPchk s.dom (mpGetDomidFromId s.dom objid) objatr c.rounds
      (s.dom.cb (.tsk, c.tsk)).id).map fun ok => if ok then E_OK else E_NOEXS

/-- `_tk_fnd_tsk` and so on, all kinds but domains, whose names everyone may find. -/
def tkFnd (t : ObjType) (c : Caller) (domid : ID) (oname : Bytes) : Option ℤ :=
  if !cfg.chkId .dom domid then some E_ID
  else
    let id := s.mpSearchOname cfg t domid oname
    if 0 < id then
      (s.mpCheckProtectionFnd cfg c id.toNat (s.dom.cb (t, INDEX t id.toNat)).atr).map fun ercd =>
        if ercd < E_OK then ercd else id
    else some id

/-- `_tk_fnd_dom`. -/
def tkFndDom (domid : ID) (oname : Bytes) : ℤ :=
  if !cfg.chkId .dom domid then E_ID else s.mpSearchOname cfg .dom domid oname

/-- `mp_domain_initialize`; only the control block of the kernel domain is cleared. -/
def domainInitialize (mem : ObjType × ℕ → Bytes) : NameState where
  dom := mpDomainInitialize cfg
  key _ := 0
  oname o := if o = (.dom, 0) then fun i => if i < OBJECT_NAME_LENGTH then 0 else mem o i else mem o

end NameState

end SmpTKernel
