import SmpTKernel.ObjectLifeInv

/-!
# Runs of creations and deletions

The calls on any objects in any order, with the dispatcher deleting the tasks that are left to it.
In every state that is reached the control blocks are conserved, and every creation and deletion
that can come next is right.
-/

namespace SmpTKernel

open Kern

variable {cfg : DomCfg} {o : ObjectState} {t : ObjType} {i : ℕ}

/-! ## The calls -/

/-- The calls that create and delete objects, and the dispatcher. -/
inductive ObjectOp
  | creTsk (p : NewObj) (stksz : ℤ) (sstack stack : Option ℕ)
  | creSem (p : NewObj)
  | creFlg (p : NewObj)
  | creMbx (p : NewObj)
  | creMtx (p : NewObj) (ceilpri : ℕ)
  | creMbf (p : NewObj) (svcCallLimit : ℕ) (bufsz : ℤ) (msgbuf : Option ℕ)
  | crePor (p : NewObj)
  | creMpf (p : NewObj) (mempool : Option ℕ)
  | creMpl (p : NewObj) (mempool : Option ℕ)
  | creCyc (p : NewObj)
  | creAlm (p : NewObj)
  | creDom (p : NewObj)
  | delTsk (c : Caller) (id : ID) (dormant running : Bool)
  | delSem (c : Caller) (h : Hook) (id : ID)
  | delFlg (c : Caller) (h : Hook) (id : ID)
  | delMbx (c : Caller) (h : Hook) (id : ID)
  | delMtx (c : Caller) (h : Hook) (id : ID)
  | delMbf (c : Caller) (h : Hook) (id : ID)
  | delPor (c : Caller) (h : Hook) (id : ID)
  | delMpf (ddsp : Bool) (c : Caller) (h : Hook) (id : ID)
  | delMpl (ddsp : Bool) (c : Caller) (h : Hook) (id : ID)
  | delCyc (c : Caller) (h : Hook) (id : ID)
  | delAlm (c : Caller) (h : Hook) (id : ID)
  | delDom (domid : ID)
  | fdelDom (domid : ID)
  | exdTsk (i : ℕ)
  | intoDsp (i : ℕ)

namespace ObjectOp

/-- The state after the call, its value, and the tasks it releases with what it writes to their
`*wercd`. -/
def exec (cfg : DomCfg) (s : ObjectState) : ObjectOp → ObjectState × Option ℤ × List (Tsk × ER)
  | creTsk p stksz sstack stack => let r := s.tkCreTsk cfg p stksz sstack stack; (r.1, r.2, [])
  | creSem p => let r := s.tkCreSem cfg p; (r.1, r.2, [])
  | creFlg p => let r := s.tkCreFlg cfg p; (r.1, r.2, [])
  | creMbx p => let r := s.tkCreMbx cfg p; (r.1, r.2, [])
  | creMtx p ceilpri => let r := s.tkCreMtx cfg p ceilpri; (r.1, r.2, [])
  | creMbf p svcCallLimit bufsz msgbuf =>
    let r := s.tkCreMbf cfg p svcCallLimit bufsz msgbuf; (r.1, r.2, [])
  | crePor p => let r := s.tkCrePor cfg p; (r.1, r.2, [])
  | creMpf p mempool => let r := s.tkCreMpf cfg p mempool; (r.1, r.2, [])
  | creMpl p mempool => let r := s.tkCreMpl cfg p mempool; (r.1, r.2, [])
  | creCyc p => let r := s.tkCreCyc cfg p; (r.1, r.2, [])
  | creAlm p => let r := s.tkCreAlm cfg p; (r.1, r.2, [])
  | creDom p => let r := s.tkCreDom cfg p; (r.1, r.2, [])
  | delTsk c id dormant running => s.tkDelTsk cfg c id dormant running
  | delSem c h id => s.tkDelSem cfg c h id
  | delFlg c h id => s.tkDelFlg cfg c h id
  | delMbx c h id => s.tkDelMbx cfg c h id
  | delMtx c h id => s.tkDelMtx cfg c h id
  | delMbf c h id => s.tkDelMbf cfg c h id
  | delPor c h id => s.tkDelPor cfg c h id
  | delMpf ddsp c h id => s.tkDelMpf cfg ddsp c h id
  | delMpl ddsp c h id => s.tkDelMpl cfg ddsp c h id
  | delCyc c h id => s.tkDelCyc cfg c h id
  | delAlm c h id => s.tkDelAlm cfg c h id
  | delDom domid => s.tkDelDom cfg domid
  | fdelDom domid => s.tkFdelDom cfg domid
  | exdTsk i => (s.tkExdTsk i, none, [])
  | intoDsp i => (s.intoDsp i, none, [])

/-- The kind of the object that the call creates. -/
def creates : ObjectOp → Option ObjType
  | creTsk .. => some .tsk
  | creSem .. => some .sem
  | creFlg .. => some .flg
  | creMbx .. => some .mbx
  | creMtx .. => some .mtx
  | creMbf .. => some .mbf
  | crePor .. => some .por
  | creMpf .. => some .mpf
  | creMpl .. => some .mpl
  | creCyc .. => some .cyc
  | creAlm .. => some .alm
  | creDom .. => some .dom
  | _ => none

/-- The kind and the ID of the object that the call deletes. -/
def deletes : ObjectOp → Option (ObjType × ID)
  | delTsk _ id _ _ => some (.tsk, id)
  | delSem _ _ id => some (.sem, id)
  | delFlg _ _ id => some (.flg, id)
  | delMbx _ _ id => some (.mbx, id)
  | delMtx _ _ id => some (.mtx, id)
  | delMbf _ _ id => some (.mbf, id)
  | delPor _ _ id => some (.por, id)
  | delMpf _ _ _ id => some (.mpf, id)
  | delMpl _ _ _ id => some (.mpl, id)
  | delCyc _ _ id => some (.cyc, id)
  | delAlm _ _ id => some (.alm, id)
  | delDom domid | fdelDom domid => some (.dom, domid)
  | _ => none

/-- A task that ends is there. -/
def Legal (s : ObjectState) : ObjectOp → Prop
  | exdTsk i => Live s.names.dom (.tsk, i) ∧ (s.names.dom.cb (.tsk, i)).stkfree = false
  | _ => True

end ObjectOp

/-- Runs of these calls. Between them the rest of the system does what it does to the waits, as long
as the wait queues are in order, to the names and to its own memory. -/
inductive ObjectRun (cfg : DomCfg) : ObjectState → Prop
  | init (mem : ObjType × ℕ → Bytes) (heap : List ImallocArea) (kern : Kern)
      (link : LinkInv True (none, kern)) (objatr : ∀ o, kern.objatr o = none) :
      ObjectRun cfg ⟨NameState.domainInitialize cfg mem, heap, fun _ => [], kern⟩
  | step {s : ObjectState} (run : ObjectRun cfg s) (op : ObjectOp) (legal : op.Legal s) :
      ObjectRun cfg (op.exec cfg s).1
  | others {s : ObjectState} (run : ObjectRun cfg s) (names : NameState) (heap : List ImallocArea)
      (kern : Kern) (dom : names.dom = s.names.dom) (link : LinkInv True (none, kern))
      (objatr : kern.objatr = s.kern.objatr) :
      ObjectRun cfg { s with names := names, heap := heap, kern := kern }

theorem ObjectOp.created (ids : IdInv cfg o.names.dom) (fits : cfg.Fits) {op : ObjectOp}
    (h : op.creates = some t) :
    CreatedRight cfg o t ((op.exec cfg o).1, (op.exec cfg o).2.1) := by
  cases op <;> cases h
  case creTsk p stksz sstack stack =>
    have h : CreatedRight cfg o .tsk (o.tkCreTsk cfg p stksz sstack stack) := by
      unfold ObjectState.tkCreTsk
      exact create_plain ids fits .tsk p _
    exact h
  case creSem p => exact create_waits ids fits .sem p [] p.atr
  case creFlg p => exact create_waits ids fits .flg p [] p.atr
  case creMbx p => exact create_waits ids fits .mbx p [] p.atr
  case creMtx p ceilpri =>
    exact ⟨_, fun id k => .newMtx id p.atr ceilpri k, create_cases ids fits .mtx p [] _⟩
  case creMbf p svcCallLimit bufsz msgbuf => exact create_waits ids fits .mbf p _ p.atr
  case crePor p => exact create_waits ids fits .por p [] p.atr
  case creMpf p mempool => exact create_waits ids fits .mpf p [⟨p.atr, mempool⟩] p.atr
  case creMpl p mempool => exact create_waits ids fits .mpl p [⟨p.atr, mempool⟩] p.atr
  case creCyc p => exact create_plain ids fits .cyc p []
  case creAlm p => exact create_plain ids fits .alm p []
  case creDom p => exact ⟨_, fun id k => .same .dom id k, tkCreDom_cases ids fits p⟩

theorem ObjectOp.deleted (cfg : DomCfg) (o : ObjectState) {op : ObjectOp} {id : ID}
    (h : op.deletes = some (t, id)) :
    DeletedAll o t (INDEX t id) (op.exec cfg o) := by
  cases op <;> cases h
  case delTsk c dormant running => exact tkDelTsk_all cfg o c id dormant running
  case delDom => exact deleteDom_cases (tkDelDom_deleted o.names.dom id)
  case fdelDom => exact deleteDom_cases (tkFdelDom_deleted o.names.dom id)
  case delPor c hook => exact deleteIn_cases cfg o .por c.indp c hook id
  case delMpf ddsp c hook => exact deleteIn_cases cfg o .mpf ddsp c hook id
  case delMpl ddsp c hook => exact deleteIn_cases cfg o .mpl ddsp c hook id
  all_goals
    rename_i c hook
    exact delete_cases cfg o _ c hook id

/-! ## The invariant -/

structure ObjectInv (cfg : DomCfg) (s : ObjectState) : Prop where
  ids : IdInv cfg s.names.dom
  link : LinkInv True (none, s.kern)
  /-- The queues are those of the objects that are there. -/
  known : ∀ t k id, t.objKind = some k → s.kern.objatr (k, id) ≠ none →
    (s.names.dom.cb (t, INDEX t id)).id = id ∧ id ≠ 0

theorem ObjectInv.created (inv : ObjectInv cfg o) (fits : cfg.Fits) {r : ObjectState × Option ℤ}
    (h : CreatedRight cfg o t r) : ObjectInv cfg r.1 := by
  obtain ⟨init, hinit, h⟩ := h
  cases h with
  | failed => exact inv
  | hangs => exact ⟨inv.ids, inv.link, inv.known⟩
  | @made s' domid id created made kern =>
    obtain ⟨⟨cb, hcb, cb_eq⟩, hne, hnew⟩ := made
    have hwaits := hinit id o.kern
    rw [← kern] at hwaits
    refine ⟨inv.ids.created fits created, hwaits.link inv.link fun k hk => ?_,
      fun t' k j hk hj => ?_⟩
    · by_contra hold
      obtain ⟨hid, hne⟩ := inv.known t k id hk hold
      exact hnew fun hzero => hne (hid.symm.trans hzero)
    · change (s'.names.dom.cb (t', INDEX t' j)).id = j ∧ j ≠ 0
      rw [cb_eq]
      rcases hwaits.objatr k j hj with hold | ⟨hk', rfl⟩
      · obtain ⟨hid, hj0⟩ := inv.known t' k j hk hold
        rw [Function.update_of_ne]
        · exact ⟨hid, hj0⟩
        · intro e
          exact hnew fun hzero => hj0 (hid.symm.trans (e ▸ hzero))
      · obtain rfl := objKind_inj hk hk'
        rw [Function.update_self]
        exact ⟨hcb, hne⟩

theorem ObjectInv.plain (inv : ObjectInv cfg o) {o' : ObjectState} (ids : IdInv cfg o'.names.dom)
    (kern : o'.kern = o.kern) (ht : t.objKind = none)
    (cb_id : ∀ x, x ≠ (t, i) → (o'.names.dom.cb x).id = (o.names.dom.cb x).id) :
    ObjectInv cfg o' := by
  refine ⟨ids, kern ▸ inv.link, fun t' k j hk hj => ?_⟩
  rw [kern] at hj
  have hne : (t', INDEX t' j) ≠ (t, i) := fun e => by
    rw [(Prod.mk.inj e).1, ht] at hk
    cases hk
  rw [cb_id _ hne]
  exact inv.known t' k j hk hj

theorem Deleted.cb_id {d : DomState} {r : DomState × Option ℤ} {id : ID} (h : Deleted d t i id r)
    {x : ObjType × ℕ} (hx : x ≠ (t, i)) : (r.1.cb x).id = (d.cb x).id := by
  cases h with
  | failed => rfl
  | gone live part cb_eq free_eq => rw [cb_eq, Function.update_of_ne hx]

theorem ObjectInv.deleted (inv : ObjectInv cfg o) {r : ObjectState × Option ℤ × List (Tsk × ER)}
    (h : DeletedAll o t i r) : ObjectInv cfg r.1 := by
  cases h with
  | failed => exact inv
  | @gone s' id deleted hook kern =>
    refine ⟨inv.ids.deleted deleted, kern ▸ (inv.link.deleteObj hook t _).1, fun t' k j hk hj => ?_⟩
    rw [kern] at hj
    obtain ⟨hj, hne⟩ := deleteObj_objatr hk hj
    obtain ⟨hid, hj0⟩ := inv.known t' k j hk hj
    have hx : (t', INDEX t' j) ≠ (t, i) := fun e => hne (Prod.ext (Prod.mk.inj e).1 (e ▸ hid).symm)
    rw [deleted.cb_id hx]
    exact ⟨hid, hj0⟩
  | @marked s' tsk marked kern =>
    subst tsk
    refine inv.plain (t := .tsk) (i := i) (inv.ids.mark marked) kern rfl fun x _ => ?_
    generalize hr : (s'.names.dom, some E_OK) = r at marked
    cases marked with
    | failed v hv => exact absurd (Prod.mk.inj hr).2.symm hv
    | marked live =>
      rw [(Prod.mk.inj hr).1]
      exact setStkfree_id ..

theorem intoDsp_dom (n : NameState) (i : ℕ) : (n.intoDsp i).dom = SmpTKernel.intoDsp n.dom i := by
  unfold NameState.intoDsp
  dsimp only
  split_ifs <;> rfl

theorem ObjectInv.exec (inv : ObjectInv cfg o) (fits : cfg.Fits) {op : ObjectOp}
    (legal : op.Legal o) :
    ObjectInv cfg (op.exec cfg o).1 := by
  cases hc : op.creates with
  | some t => exact inv.created fits (ObjectOp.created inv.ids fits hc)
  | none =>
    cases hd : op.deletes with
    | some x => exact inv.deleted (ObjectOp.deleted cfg o hd)
    | none =>
      cases op with
      | exdTsk i =>
        have hdeleted := tkExdTsk_deleted legal.1
        exact inv.plain (t := .tsk) (i := i) (inv.ids.deleted hdeleted) rfl rfl
          fun x hx => hdeleted.cb_id hx
      | intoDsp i =>
        change ObjectInv cfg (o.intoDsp i)
        unfold ObjectState.intoDsp
        dsimp only
        split_ifs with hs
        · have hdeleted := delTask_deleted (inv.ids.marked _ hs)
          have hdom : (o.names.intoDsp i).dom = delTask o.names.dom i := by
            rw [intoDsp_dom, SmpTKernel.intoDsp, if_pos hs]
          exact inv.plain (t := .tsk) (i := i) (hdom.symm ▸ inv.ids.deleted hdeleted) rfl rfl
              fun x hx =>
            hdom.symm ▸ hdeleted.cb_id hx
        · have hdom : (o.names.intoDsp i).dom = o.names.dom := by
            rw [intoDsp_dom, SmpTKernel.intoDsp, if_neg hs]
          exact inv.plain (t := .tsk) (i := i) (hdom.symm ▸ inv.ids) rfl rfl fun x _ => by rw [hdom]
      | _ => first | (cases hc; done) | cases hd

theorem ObjectRun.inv (fits : cfg.Fits) (run : ObjectRun cfg o) : ObjectInv cfg o := by
  induction run with
  | init mem heap kern link objatr =>
    exact ⟨mpDomainInitialize_ids cfg, link, fun t k id _ h => absurd (objatr _) h⟩
  | step _ op legal ih => exact ih.exec fits legal
  | others _ names heap kern dom link objatr ih =>
    refine ⟨dom ▸ ih.ids, link, fun t k id hk h => ?_⟩
    rw [dom]
    exact ih.known t k id hk (objatr ▸ h)

/-! ## The result -/

/-- Creation is all or nothing, and control blocks are conserved. -/
structure ObjectsRight (cfg : DomCfg) (s : ObjectState) : Prop where
  /-- Every control block is once in the free queue or in use. -/
  once : ∀ t i, i < cfg.num t →
    (s.names.dom.free t).count i = if (s.names.dom.cb (t, i)).id = 0 then 1 else 0
  free_lt : ∀ t, ∀ i ∈ s.names.dom.free t, i < cfg.num t
  /-- The ID of a control block in use is a valid one and leads to it. -/
  ids : ∀ t i, (s.names.dom.cb (t, i)).id ≠ 0 →
    i < cfg.num t ∧ cfg.chkId t (s.names.dom.cb (t, i)).id ∧ INDEX t (s.names.dom.cb (t, i)).id = i
  /-- A task that is left to the dispatcher is in use until the dispatcher frees it. -/
  marked : ∀ i, (s.names.dom.cb (.tsk, i)).stkfree →
    (s.names.dom.cb (.tsk, i)).id ≠ 0 ∧ ((s.intoDsp i).names.dom.cb (.tsk, i)).id = 0 ∧
      (s.intoDsp i).names.dom.free .tsk = s.names.dom.free .tsk ++ [i]
  failed : ∀ (op : ObjectOp) (t : ObjType), op.creates = some t →
    ∀ v < E_OK, (op.exec cfg s).2.1 = some v → (op.exec cfg s).1 = s
  made : ∀ (op : ObjectOp) (t : ObjType), op.creates = some t → ∀ v, (op.exec cfg s).2.1 = some v →
    (op.exec cfg s).1 = s ∨
      ∃ id : ID, v = id ∧ MadeAs s.names.dom (op.exec cfg s).1.names.dom t id
  deleted : ∀ (op : ObjectOp) (t : ObjType) (id : ID), op.deletes = some (t, id) →
    (op.exec cfg s).2.1 = some E_OK →
      ReleasedAll s.kern (op.exec cfg s).1.kern t (s.names.dom.cb (t, INDEX t id)).id
        (op.exec cfg s).2.2
  kept : ∀ (op : ObjectOp) (t : ObjType) (id : ID), op.deletes = some (t, id) →
    (op.exec cfg s).2.1 ≠ some E_OK → (op.exec cfg s).1 = s ∧ (op.exec cfg s).2.2 = []

theorem ObjectInv.once (inv : ObjectInv cfg o) (hi : i < cfg.num t) :
    (o.names.dom.free t).count i = if (o.names.dom.cb (t, i)).id = 0 then 1 else 0 := by
  obtain ⟨hnodup, hmem⟩ := inv.ids.free t
  rw [hnodup.count]
  refine if_congr ?_ rfl rfl
  rw [hmem i, and_iff_right hi]
  exact not_not

theorem ObjectInv.marked (inv : ObjectInv cfg o) (h : (o.names.dom.cb (.tsk, i)).stkfree) :
    (o.names.dom.cb (.tsk, i)).id ≠ 0 ∧ ((o.intoDsp i).names.dom.cb (.tsk, i)).id = 0 ∧
      (o.intoDsp i).names.dom.free .tsk = o.names.dom.free .tsk ++ [i] := by
  have hdom : (o.intoDsp i).names.dom = delTask o.names.dom i := by
    unfold ObjectState.intoDsp
    dsimp only
    rw [if_pos h]
    change (o.names.intoDsp i).dom = _
    rw [intoDsp_dom, SmpTKernel.intoDsp, if_pos h]
  have hlive := inv.ids.marked _ h
  refine ⟨hlive, ?_⟩
  rw [hdom]
  generalize hr : (delTask o.names.dom i, some E_OK) = r
  have hdeleted : Deleted o.names.dom .tsk i _ r := hr ▸ delTask_deleted hlive
  cases hdeleted with
  | failed v hv => exact absurd (Prod.mk.inj hr).2.symm hv
  | gone live part cb_eq free_eq =>
    rw [(Prod.mk.inj hr).1, cb_eq, free_eq, Function.update_self, Function.update_self]
    exact ⟨rfl, rfl⟩

theorem DeletedAll.right (link : LinkInv True (none, o.kern))
    {r : ObjectState × Option ℤ × List (Tsk × ER)} (h : DeletedAll o t i r) :
    (r.2.1 = some E_OK → ReleasedAll o.kern r.1.kern t (o.names.dom.cb (t, i)).id r.2.2) ∧
      (r.2.1 ≠ some E_OK → r.1 = o ∧ r.2.2 = []) := by
  cases h with
  | failed v hv => exact ⟨fun hr => absurd hr hv, fun _ => ⟨rfl, rfl⟩⟩
  | gone deleted hook kern =>
    refine ⟨fun _ => ?_, fun hr => absurd rfl hr⟩
    have hreleased := (link.deleteObj hook t (o.names.dom.cb (t, i)).id).2
    rwa [← kern] at hreleased
  | marked tsk marked kern =>
    subst tsk
    refine ⟨fun _ => ?_, fun hr => absurd rfl hr⟩
    have hreleased := (link.deleteObj ⟨0, 0⟩ .tsk (o.names.dom.cb (.tsk, i)).id).2
    rw [deleteObj_none o.kern ⟨0, 0⟩ rfl] at hreleased
    rwa [kern]

/-- **Objects.** In every run of creations and deletions the control blocks are conserved; a
creation that fails leaves the state as it was, and a deletion releases the tasks that wait, each
once. -/
theorem objectRun_right (fits : cfg.Fits) (run : ObjectRun cfg o) : ObjectsRight cfg o := by
  have inv := run.inv fits
  refine ⟨fun t i hi => inv.once hi, fun t i hi => (((inv.ids.free t).2 i).mp hi).1,
    fun t i hlive => ?_, fun i h => inv.marked h, fun op t hop v hv hr => ?_,
    fun op t hop v hr => ?_, fun op t id hop => ?_, fun op t id hop => ?_⟩
  · have hid := inv.ids.id t i hlive
    exact ⟨hid.1, hid.chkId fits, hid.index fits⟩
  · obtain ⟨init, -, hcreated⟩ := ObjectOp.created inv.ids fits hop
    generalize (op.exec cfg o).1 = s', (op.exec cfg o).2.1 = w at hcreated hr
    cases hcreated with
    | failed => rfl
    | hangs => cases hr
    | made => exact absurd (Option.some.inj hr ▸ hv) (not_lt.mpr (Int.natCast_nonneg _))
  · obtain ⟨init, -, hcreated⟩ := ObjectOp.created inv.ids fits hop
    generalize (op.exec cfg o).1 = s', (op.exec cfg o).2.1 = w at hcreated hr
    cases hcreated with
    | failed => exact Or.inl rfl
    | hangs => cases hr
    | made created made kern => exact Or.inr ⟨_, (Option.some.inj hr).symm, made⟩
  · exact ((ObjectOp.deleted cfg o hop).right inv.link).1
  · exact ((ObjectOp.deleted cfg o hop).right inv.link).2

/-- No object but the kernel domain. -/
def ObjectState.initial (cfg : DomCfg) : ObjectState :=
  ⟨NameState.domainInitialize cfg fun _ _ => 0, [], fun _ => [], boot⟩

/-- A mutex without a name, public and in the kernel domain. -/
def newMutex : NewObj := ⟨intCall, none, TA_PUBLIC ||| TA_INHERIT, fun _ => 0, E_OK, E_OK⟩

/-- Task 1 holds the mutex, and task 2 waits for it. -/
def holdRun : List KernOp :=
  [.creTsk 1 10 0, .creTsk 2 5 0, .creMtx 0x01000001 (TA_PUBLIC ||| TA_INHERIT) 0 0, .staTsk 1 0,
    .staTsk 2 0, .locMtx 1 ⟨0, 9⟩ 0x01000001 TMO_FEVR 0, .locMtx 2 ⟨0, 9⟩ 0x01000001 TMO_FEVR 0]

/-- The state with the mutex and the tasks. -/
def heldMutex : ObjectState :=
  { ((ObjectOp.creMtx newMutex 0).exec oneOfEach (.initial oneOfEach)).1 with
    kern := execAll holdRun boot }

/-- There is one mutex only; its deletion releases the task that waits for it. -/
theorem objectRun_right_held :
    ((ObjectOp.creMtx newMutex 0).exec oneOfEach heldMutex).2.1 = some E_LIMIT ∧
      ((ObjectOp.delMtx intCall ⟨0, 9⟩ 0x01000001).exec oneOfEach heldMutex).2 =
        (some E_OK, [(2, E_DLT)]) ∧
        ObjectsRight oneOfEach heldMutex := by
  have hboot : LinkInv True (none, boot) := (KernRun.init boot boot_initial).link fun _ _ _ h => h
  have hkern : LinkInv True (none, execAll holdRun boot) :=
    ((KernRun.init boot boot_initial).all (by decide +kernel)).link fun _ _ _ h => h
  have run : ObjectRun oneOfEach (.initial oneOfEach) := .init _ [] boot hboot fun _ => rfl
  have run : ObjectRun oneOfEach heldMutex :=
    (run.step (.creMtx newMutex 0) trivial).others _ [] (execAll holdRun boot) rfl hkern rfl
  exact ⟨by decide +kernel, by decide +kernel, objectRun_right oneOfEach_fits run⟩

end SmpTKernel
