import SmpTKernel.KernelCalls
import SmpTKernel.MessageBuffer
import SmpTKernel.ObjectName

/-!
# Creation and deletion of objects

All kinds of objects with everything that a creation takes and has to give back when it fails: a
control block with a name, as in the model of the names, and areas of kernel memory; and the wait
queues, from which a deletion releases the tasks with `E_DLT`. Most kinds need no memory; where they
do, it is allocated before the critical section, and what the allocator returns is a parameter. The
rest of the control blocks is left out. The ID of an object in the model of the waits is the one in
its control block, and the indices of the tasks are its tasks.
-/

namespace SmpTKernel

/-- Non-resident. -/
abbrev TA_NORESIDENT : ℕ := 0x00000010

/-! ## Memory -/

/-- `RING(attr)`. -/
def RING (attr : ℕ) : ℕ := if attr &&& TA_RNG3 = TA_RNG3 then 1 else 0

/-- `RESIDENT(attr)`. -/
def RESIDENT (attr : ℕ) : ℕ := if attr &&& TA_NORESIDENT = 0 then 1 else 0

/-- An allocated area: the indices of its control block in `Imacb`, and the address. -/
structure ImallocArea where
  imacb : ℕ × ℕ
  ptr : ℕ
  deriving DecidableEq, Repr

/-- `SelIMACB(attr)`. -/
def SelIMACB (attr : ℕ) : ℕ × ℕ := (RING attr, RESIDENT attr)

/-- A call of `IAmalloc` with these attributes, and what it returns; `none` is `NULL`. -/
structure HeapRequest where
  attr : ℕ
  ptr : Option ℕ

/-- `IAfree` for each of the areas. -/
def freeAreas (heap areas : List ImallocArea) : List ImallocArea := areas.foldl List.erase heap

/-- Allocate the areas one after the other; when there is no memory for one, those before it are
freed. `got` are the areas allocated so far. -/
def allocAreas : List HeapRequest → List ImallocArea → List ImallocArea →
    List ImallocArea × Option (List ImallocArea)
  | [], got, heap => (heap, some got)
  | req :: reqs, got, heap =>
    match req.ptr with
    | none => (freeAreas heap got, none)
    | some ptr =>
      allocAreas reqs (got ++ [⟨SelIMACB req.attr, ptr⟩]) (⟨SelIMACB req.attr, ptr⟩ :: heap)

/-- `TA_RNG`, the attributes `Imalloc` asks for. -/
def SVC_RNG (svcCallLimit : ℕ) : ℕ := svcCallLimit <<< 8

/-! ## Waits -/

/-- The kinds of objects with wait queues. -/
def ObjType.objKind : ObjType → Option ObjKind
  | sem => some .sem
  | flg => some .flg
  | mbx => some .mbx
  | mtx => some .mtx
  | mbf => some .mbf
  | por => some .por
  | mpf => some .mpf
  | mpl => some .mpl
  | _ => none

namespace Kern

/-- `wait_delete`, at most `n` rounds of its loop: the tasks it releases, with what it writes to
`*wercd`. -/
def deleteWaits (q : QueueId) : ℕ → Kern → Kern × List (Tsk × ER)
  | 0, s => (s, [])
  | n + 1, s =>
    match s.queue q with
    | [] => (s, [])
    | t :: _ =>
      let r := deleteWaits q n (s.waitRelease t)
      (r.1, (t, E_DLT) :: r.2)

/-- The queues of an object, one after the other. -/
def deleteQueues (id : ID) : List WaitKind → Kern → Kern × List (Tsk × ER)
  | [], s => (s, [])
  | w :: ws, s =>
    let r := deleteWaits (w, id) (s.queue (w, id)).length s
    let r' := deleteQueues id ws r.1
    (r'.1, r.2 ++ r'.2)

/-- If there is a task that holds the mutex, delete the mutex from its list. -/
def releaseHolder (s : Kern) (h : Hook) (id : ID) : Kern :=
  match s.mtxtsk id with
  | none => s
  | some mtxtsk => chain h.served h.depth (s.releaseMutex mtxtsk (some id))

/-- What the deletion of an object does to the waiting tasks. -/
def deleteObj (s : Kern) (h : Hook) (t : ObjType) (id : ID) : Kern × List (Tsk × ER) :=
  match t.objKind with
  | none => (s, [])
  | some k =>
    let r := deleteQueues id k.queues (if k = .mtx then s.releaseHolder h id else s)
    (r.1.unregister k id, r.2)

/-- The wait queues and attributes of a new object. -/
def newObj (s : Kern) (t : ObjType) (id : ID) (atr : ℕ) : Kern :=
  match t.objKind with
  | none => s
  | some k => s.register k id atr

/-- A new mutex, held by no task. -/
def newMtx (s : Kern) (id : ID) (atr ceilpri : ℕ) : Kern :=
  { s.register .mtx id atr with
    ceilpri := Function.update s.ceilpri id ceilpri
    mtxtsk := Function.update s.mtxtsk id none }

end Kern

/-! ## Objects -/

/-- `_tk_fdel_dom`. -/
def NameState.tkFdelDom (cfg : DomCfg) (s : NameState) (domid : ID) : NameState × ER :=
  let r := SmpTKernel.tkFdelDom cfg s.dom domid
  let r' := s.deleted (.dom, INDEX .dom domid) (r.1, some r.2)
  (r'.1, r.2)

structure ObjectState where
  names : NameState
  /-- The allocated areas. -/
  heap : List ImallocArea
  /-- The areas whose addresses are in the control block. -/
  areas : ObjType × ℕ → List ImallocArea
  kern : Kern

/-- The parameters of a creation that all kinds have. `chk` is the error of the first check that
fails before the ones for the protection attribute and the domain, and `late` of the first after
them. -/
structure NewObj where
  c : Caller
  domid : Option ID
  atr : ℕ
  oname : Bytes
  chk : ER
  late : ER

namespace ObjectState

variable (cfg : DomCfg) (s : ObjectState)

/-- `_tk_cre_sem` and so on: the checks, the memory, the critical section, and on an error in it the
memory again. No result if the protection check goes on. -/
def create (t : ObjType) (p : NewObj) (reqs : List HeapRequest) (init : ID → Kern → Kern) :
    ObjectState × Option ℤ :=
  if p.chk ≠ E_OK then (s, some p.chk)
  else if MP_GET_PATR p.atr ≠ TA_PUBLIC ∧ MP_GET_PATR p.atr ≠ TA_PROTECTED ∧
      MP_GET_PATR p.atr ≠ TA_PRIVATE then
    (s, some E_RSATR)
  else if p.domid.any fun d => !cfg.chkId .dom d then (s, some E_ID)
  else if p.late ≠ E_OK then (s, some p.late)
  else
    let (heap, got) := allocAreas reqs [] s.heap
    match got with
    | none => ({ s with heap := heap }, some E_NOMEM)
    | some got =>
      let (names, r) := s.names.creObj cfg t p.c p.domid p.atr p.oname
      match r with
      | none => ({ s with names := names, heap := heap }, none)
      | some ercd =>
        if ercd < E_OK then ({ s with names := names, heap := freeAreas heap got }, some ercd)
        else
          (⟨names, heap, Function.update s.areas (t, INDEX t ercd.toNat) got,
            init ercd.toNat s.kern⟩, some ercd)

/-- `(stksz + 7) / 8 * 8`. -/
def alignStack (stksz : ℤ) : ℤ := (INT ((UINT stksz + 7) % 2 ^ 32)).tdiv 8 * 8

/-- `_tk_cre_tsk`; a task in protection level 0 has its user stack in the system stack. -/
def tkCreTsk (p : NewObj) (stksz : ℤ) (sstack stack : Option ℕ) : ObjectState × Option ℤ :=
  let stksz := alignStack (if p.atr &&& TA_RNG3 = 0 then 0 else stksz)
  s.create cfg .tsk p (⟨0, sstack⟩ :: if stksz > 0 then [⟨p.atr, stack⟩] else []) fun _ k => k

def tkCreSem (p : NewObj) : ObjectState × Option ℤ :=
  s.create cfg .sem p [] fun id k => k.newObj .sem id p.atr
def tkCreFlg (p : NewObj) : ObjectState × Option ℤ :=
  s.create cfg .flg p [] fun id k => k.newObj .flg id p.atr
def tkCreMbx (p : NewObj) : ObjectState × Option ℤ :=
  s.create cfg .mbx p [] fun id k => k.newObj .mbx id p.atr

def tkCreMtx (p : NewObj) (ceilpri : ℕ) : ObjectState × Option ℤ :=
  s.create cfg .mtx p [] fun id k => k.newMtx id p.atr ceilpri

/-- `_tk_cre_mbf`; no buffer without room for messages. -/
def tkCreMbf (p : NewObj) (svcCallLimit : ℕ) (bufsz : ℤ) (msgbuf : Option ℕ) :
    ObjectState × Option ℤ :=
  let bufsz := INT (ROUNDSZ bufsz)
  s.create cfg .mbf p (if bufsz > 0 then [⟨SVC_RNG svcCallLimit, msgbuf⟩] else []) fun id k =>
    k.newObj .mbf id p.atr

def tkCrePor (p : NewObj) : ObjectState × Option ℤ :=
  s.create cfg .por p [] fun id k => k.newObj .por id p.atr

def tkCreMpf (p : NewObj) (mempool : Option ℕ) : ObjectState × Option ℤ :=
  s.create cfg .mpf p [⟨p.atr, mempool⟩] fun id k => k.newObj .mpf id p.atr

def tkCreMpl (p : NewObj) (mempool : Option ℕ) : ObjectState × Option ℤ :=
  s.create cfg .mpl p [⟨p.atr, mempool⟩] fun id k => k.newObj .mpl id p.atr

def tkCreCyc (p : NewObj) : ObjectState × Option ℤ := s.create cfg .cyc p [] fun _ k => k
def tkCreAlm (p : NewObj) : ObjectState × Option ℤ := s.create cfg .alm p [] fun _ k => k

/-- `_tk_cre_dom`. -/
def tkCreDom (p : NewObj) : ObjectState × Option ℤ :=
  if p.chk ≠ E_OK then (s, some p.chk)
  else
    let r := s.names.tkCreDom cfg p.domid p.atr p.oname
    ({ s with names := r.1 }, r.2)

/-- The memory of the object is freed. -/
def freeObj (o : ObjType × ℕ) : ObjectState :=
  { s with heap := freeAreas s.heap (s.areas o), areas := Function.update s.areas o [] }

/-- `_tk_del_sem` and so on: release the waiting tasks, return the control block, and free the
memory. -/
def delete (t : ObjType) (c : Caller) (h : Hook) (id : ID) :
    ObjectState × Option ℤ × List (Tsk × ER) :=
  let (names, r) := s.names.delObj cfg t c id
  if r = some E_OK then
    let (kern, released) := s.kern.deleteObj h t (s.names.dom.cb (t, INDEX t id)).id
    (freeObj { s with names := names, kern := kern } (t, INDEX t id), r, released)
  else ({ s with names := names }, r, [])

/-- The same, where the context is checked after the ID. -/
def deleteIn (t : ObjType) (refused : Bool) (c : Caller) (h : Hook) (id : ID) :
    ObjectState × Option ℤ × List (Tsk × ER) :=
  if cfg.chkId t id ∧ refused then (s, some E_CTX, []) else s.delete cfg t c h id

def tkDelSem : Caller → Hook → ID → ObjectState × Option ℤ × List (Tsk × ER) := s.delete cfg .sem
def tkDelFlg : Caller → Hook → ID → ObjectState × Option ℤ × List (Tsk × ER) := s.delete cfg .flg
def tkDelMbx : Caller → Hook → ID → ObjectState × Option ℤ × List (Tsk × ER) := s.delete cfg .mbx
def tkDelMtx : Caller → Hook → ID → ObjectState × Option ℤ × List (Tsk × ER) := s.delete cfg .mtx
def tkDelMbf : Caller → Hook → ID → ObjectState × Option ℤ × List (Tsk × ER) := s.delete cfg .mbf

/-- `CHECK_INTSK` -/
def tkDelPor (c : Caller) : Hook → ID → ObjectState × Option ℤ × List (Tsk × ER) :=
  s.deleteIn cfg .por c.indp c

/-- `CHECK_DISPATCH` -/
def tkDelMpf (ddsp : Bool) : Caller → Hook → ID → ObjectState × Option ℤ × List (Tsk × ER) :=
  s.deleteIn cfg .mpf ddsp

def tkDelMpl (ddsp : Bool) : Caller → Hook → ID → ObjectState × Option ℤ × List (Tsk × ER) :=
  s.deleteIn cfg .mpl ddsp

def tkDelCyc : Caller → Hook → ID → ObjectState × Option ℤ × List (Tsk × ER) := s.delete cfg .cyc
def tkDelAlm : Caller → Hook → ID → ObjectState × Option ℤ × List (Tsk × ER) := s.delete cfg .alm

/-- `_tk_del_tsk`; no task waits for a task. -/
def tkDelTsk (c : Caller) (id : ID) (dormant running : Bool) :
    ObjectState × Option ℤ × List (Tsk × ER) :=
  let (names, r) := s.names.tkDelTsk cfg c id dormant running
  let s := { s with names := names }
  (if r = some E_OK ∧ !running then s.freeObj (.tsk, INDEX .tsk id) else s, r, [])

/-- `into_dsp`: `_del_tsk` for a task whose deletion was left to the dispatcher. -/
def intoDsp (i : ℕ) : ObjectState :=
  let s' := { s with names := s.names.intoDsp i }
  if (s.names.dom.cb (.tsk, i)).stkfree then s'.freeObj (.tsk, i) else s'

/-- `_tk_exd_tsk`. -/
def tkExdTsk (i : ℕ) : ObjectState := freeObj { s with names := s.names.tkExdTsk i } (.tsk, i)

/-- `_tk_del_dom`. -/
def tkDelDom (domid : ID) : ObjectState × Option ℤ × List (Tsk × ER) :=
  let r := s.names.tkDelDom cfg domid
  ({ s with names := r.1 }, some r.2, [])

/-- `_tk_fdel_dom`. -/
def tkFdelDom (domid : ID) : ObjectState × Option ℤ × List (Tsk × ER) :=
  let r := s.names.tkFdelDom cfg domid
  ({ s with names := r.1 }, some r.2, [])

end ObjectState

end SmpTKernel
