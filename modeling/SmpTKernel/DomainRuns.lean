import SmpTKernel.DomainInv

/-!
# Runs of the domain calls

What holds of the domains after any sequence of creations and deletions. `tk_fdel_dom` does not look
at `objcnt`: what belonged to the deleted domain names a free control block from then on, or the
next domain that gets it. So both results are about the runs in which it only meets empty domains,
and two runs show what happens otherwise: a ring of parents, and a counter below zero.
-/

namespace SmpTKernel

variable {cfg : DomCfg} {s s' : DomState} {o : ObjType × ℕ} {t : ObjType} {i d : ℕ}

/-- The calls that create and delete objects and domains, and the dispatcher. -/
inductive DomOp
  | creObj (t : ObjType) (c : Caller) (domid : Option ID) (atr : ℕ) (oname : ER)
  | delObj (t : ObjType) (c : Caller) (id : ID)
  | delTsk (c : Caller) (id : ID) (dormant running : Bool)
  | exdTsk (i : ℕ)
  | intoDsp (i : ℕ)
  | creDom (domid : Option ID) (atr : ℕ) (oname : ER)
  | delDom (domid : ID)
  | fdelDom (domid : ID)

def DomOp.run (cfg : DomCfg) (s : DomState) : DomOp → DomState
  | creObj t c domid atr oname => (SmpTKernel.creObj cfg s t c domid atr oname).1
  | delObj t c id => (SmpTKernel.delObj cfg s t c id).1
  | delTsk c id dormant running => (tkDelTsk cfg s c id dormant running).1
  | exdTsk i => tkExdTsk s i
  | intoDsp i => SmpTKernel.intoDsp s i
  | creDom domid atr oname => (tkCreDom cfg s domid atr oname).1
  | delDom domid => (tkDelDom cfg s domid).1
  | fdelDom domid => (tkFdelDom cfg s domid).1

/-- Domains and tasks have calls of their own; a task that ends is there. -/
def DomOp.Legal (s : DomState) : DomOp → Prop
  | creObj t .. => t ≠ .dom
  | delObj t .. => t ≠ .dom ∧ t ≠ .tsk
  | exdTsk i => Live s (.tsk, i) ∧ (s.cb (.tsk, i)).stkfree = false
  | _ => True

instance DomOp.decidableLegal (s : DomState) : (op : DomOp) → Decidable (op.Legal s)
  | .creObj t .. => inferInstanceAs (Decidable (t ≠ .dom))
  | .delObj t .. => inferInstanceAs (Decidable (t ≠ .dom ∧ t ≠ .tsk))
  | .exdTsk i => inferInstanceAs (Decidable (Live s (.tsk, i) ∧ (s.cb (.tsk, i)).stkfree = false))
  | .delTsk .. | .intoDsp .. | .creDom .. | .delDom .. | .fdelDom .. =>
    inferInstanceAs (Decidable True)

/-- The number is not another name of the kernel domain, with one of the last four bits set. -/
def OneName (domid : ID) : Prop := domid % 2 ^ 28 = MP_KDMID_SELF → domid = MP_KDMID_SELF

/-- A domain that is deleted by force is empty, and the kernel domain is not deleted under another
name. -/
def DomOp.Sound (s : DomState) : DomOp → Prop
  | delDom domid => OneName domid
  | fdelDom domid => OneName domid ∧
      (mpExistenceCheckOfDomain s domid = E_OK → s.objcnt (INDEX .dom domid) = 0)
  | _ => True

/-- Runs from the start of the system, all steps of which are `ok`. -/
inductive DomRun (cfg : DomCfg) (ok : DomState → DomOp → Prop) : DomState → Prop
  | init : DomRun cfg ok (mpDomainInitialize cfg)
  | step {s : DomState} (op : DomOp) : DomRun cfg ok s → op.Legal s → ok s op →
      DomRun cfg ok (op.run cfg s)

/-! ## The calls keep the invariant -/

theorem existence_live {domid : ID} (h : mpExistenceCheckOfDomain s domid = E_OK) :
    Live s (.dom, GET_OBJID domid) ∧ GET_DOMID (s.cb (.dom, GET_OBJID domid)).id =
      GET_DOMID domid := by
  unfold mpExistenceCheckOfDomain at h
  split_ifs at h with h0 h1
  · exact absurd h (by decide)
  · exact absurd h (by decide)
  · refine ⟨h0, (MP_CMP_DOMIDPART_iff _ _).mp ?_⟩
    show MP_CMP_DOMIDPART (domcbId s domid) domid = true
    simpa using h1

theorem DomInv.target_live (inv : DomInv cfg s) {domid : Option ID}
    (h : (domid.any fun d => mpExistenceCheckOfDomain s d ≠ E_OK) ≠ true) :
    Live s (.dom, GET_OBJID (domid.getD MP_KDMID)) := by
  cases domid with
  | none => exact inv.kernel_live
  | some domid =>
    refine (existence_live ?_).1
    simpa using h

theorem checkDomain_part {c : Caller} {argid objid : ID} {atr : ℕ}
    (h : mpCheckDomainAndProtection cfg s c argid objid atr = some E_OK) :
    GET_DOMID argid = GET_DOMID objid := by
  unfold mpCheckDomainAndProtection at h
  by_cases hpart : (!MP_CMP_DOMIDPART argid objid) = true
  · rw [if_pos hpart] at h
    exact absurd (Option.some.inj h) (by decide)
  · exact (MP_CMP_DOMIDPART_iff _ _).mp (by simpa using hpart)

theorem DomInv.creObj (inv : DomInv cfg s) (fits : cfg.Fits) (ht : t ≠ .dom) (c : Caller)
    (domid : Option ID) (atr : ℕ) (oname : ER) :
    DomInv cfg (creObj cfg s t c domid atr oname).1 := by
  unfold SmpTKernel.creObj
  split_ifs with hpatr hchk hex hname
  · exact inv
  · exact inv
  · exact inv
  · exact inv
  dsimp only
  rcases mpCheckProtectionCre cfg s c (domid.getD MP_KDMID) atr with _ | ercd
  · exact inv
  dsimp only
  by_cases he : ercd ≠ E_OK
  · rw [if_pos he]
    exact inv
  rw [if_neg he]
  rcases hfree : s.free t with _ | ⟨i, rest⟩
  · exact inv
  · exact inv.put fits ht hfree (inv.target_live hex) atr

theorem DomInv.delObj (inv : DomInv cfg s) (fits : cfg.Fits) (ht : t ≠ .dom) (c : Caller)
    (id : ID) :
    DomInv cfg (delObj cfg s t c id).1 := by
  unfold SmpTKernel.delObj
  dsimp only
  by_cases hchk : (!cfg.chkId t id) = true
  · rw [if_pos hchk]; exact inv
  rw [if_neg hchk]
  by_cases hlive : (s.cb (t, INDEX t id)).id = 0
  · rw [if_pos hlive]; exact inv
  rw [if_neg hlive]
  rcases hcheck : mpCheckDomainAndProtection cfg s c id (s.cb (t, INDEX t id)).id
    (s.cb (t, INDEX t id)).atr with _ | ercd
  · exact inv
  dsimp only
  by_cases he : ercd ≠ E_OK
  · rw [if_pos he]; exact inv
  rw [if_neg he]
  rw [not_not.mp he] at hcheck
  exact inv.drop fits ⟨hlive, fun e => ht (Prod.mk.inj e).1, fun e => absurd e ht⟩
    (checkDomain_part hcheck)

theorem DomInv.delTask (inv : DomInv cfg s) (fits : cfg.Fits) (hl : Live s (.tsk, i)) :
    DomInv cfg (delTask s i) :=
  inv.drop fits ⟨hl, nofun, nofun⟩ rfl

theorem DomInv.tkDelTsk (inv : DomInv cfg s) (fits : cfg.Fits) (c : Caller) (id : ID)
    (dormant running : Bool) : DomInv cfg (tkDelTsk cfg s c id dormant running).1 := by
  unfold SmpTKernel.tkDelTsk
  dsimp only
  by_cases hchk : (!cfg.chkId .tsk id) = true
  · rw [if_pos hchk]; exact inv
  rw [if_neg hchk]
  by_cases hlive : (s.cb (.tsk, INDEX .tsk id)).id = 0 ∨ (s.cb (.tsk, INDEX .tsk id)).stkfree = true
  · rw [if_pos hlive]; exact inv
  rw [if_neg hlive]
  rcases mpCheckDomainAndProtection cfg s c id (s.cb (.tsk, INDEX .tsk id)).id
    (s.cb (.tsk, INDEX .tsk id)).atr with _ | ercd
  · exact inv
  dsimp only
  split_ifs
  · exact inv
  · exact inv
  · exact inv.mark (fun h => hlive (Or.inl h)) true
  · exact inv.delTask fits fun h => hlive (Or.inl h)

theorem DomInv.intoDsp (inv : DomInv cfg s) (fits : cfg.Fits) (i : ℕ) :
    DomInv cfg (intoDsp s i) := by
  unfold SmpTKernel.intoDsp
  split_ifs with hs
  · exact inv.delTask fits (inv.marked _ hs)
  · exact inv

theorem DomInv.tkCreDom (inv : DomInv cfg s) (fits : cfg.Fits) (domid : Option ID) (atr : ℕ)
    (oname : ER) :
    DomInv cfg (tkCreDom cfg s domid atr oname).1 := by
  unfold SmpTKernel.tkCreDom
  split_ifs with hchk hex hname
  · exact inv
  · exact inv
  · exact inv
  rcases hfree : s.free .dom with _ | ⟨i, rest⟩
  · exact inv
  · exact inv.putDom fits hfree (inv.target_live hex) atr

/-- An empty domain other than the kernel domain is deleted. -/
theorem DomInv.dropDom (inv : DomInv cfg s) (fits : cfg.Fits) {domid : ID}
    (hchk : cfg.chkId .dom domid = true) (hk : domid ≠ MP_KDMID_SELF) (hone : OneName domid)
    (hex : mpExistenceCheckOfDomain s domid = E_OK) (hcnt : s.objcnt (INDEX .dom domid) = 0) :
    DomInv cfg (dropObject s .dom (INDEX .dom domid) domid) := by
  obtain ⟨hl, hpart⟩ := existence_live hex
  have hidx : INDEX .dom domid = GET_OBJID domid := rfl
  rw [hidx] at hcnt ⊢
  refine inv.drop fits ⟨hl, fun e => hk (hone ?_), fun _ => ?_⟩ hpart.symm
  · -- all parts of the number are those of the kernel domain
    have h0 : GET_OBJID domid = 0 := (Prod.mk.inj e).2
    have hkd : MP_KDMID_SELF = 2 ^ 24 := rfl
    unfold DomCfg.chkId at hchk
    have hchk := of_decide_eq_true hchk
    have hprid := hchk.2.2.2
    rw [h0, inv.kernel, hkd, GET_DOMID_eq, GET_DOMID_eq] at hpart
    rw [GET_PRID_eq] at hprid
    rw [GET_OBJID_eq] at h0
    rw [hkd]
    omega
  · rw [← inv.count _ hl]
    exact hcnt

theorem DomInv.tkDelDom (inv : DomInv cfg s) (fits : cfg.Fits) {domid : ID} (hone : OneName domid) :
    DomInv cfg (tkDelDom cfg s domid).1 := by
  unfold SmpTKernel.tkDelDom
  split_ifs with hchk hk hex hcnt
  · exact inv
  · exact inv
  · exact inv
  · exact inv
  · exact inv.dropDom fits (by simpa using hchk) hk hone (not_not.mp hex) (not_not.mp hcnt)

theorem DomInv.tkFdelDom (inv : DomInv cfg s) (fits : cfg.Fits) {domid : ID} (hone : OneName domid)
    (hcnt : mpExistenceCheckOfDomain s domid = E_OK → s.objcnt (INDEX .dom domid) = 0) :
    DomInv cfg (tkFdelDom cfg s domid).1 := by
  unfold SmpTKernel.tkFdelDom
  split_ifs with hchk hk hex
  · exact inv
  · exact inv
  · exact inv
  · exact inv.dropDom fits (by simpa using hchk) hk hone (not_not.mp hex) (hcnt (not_not.mp hex))

theorem DomInv.run (inv : DomInv cfg s) (fits : cfg.Fits) {op : DomOp} (hop : op.Legal s)
    (hok : op.Sound s) : DomInv cfg (op.run cfg s) := by
  cases op with
  | creObj t c domid atr oname => exact inv.creObj fits hop c domid atr oname
  | delObj t c id => exact inv.delObj fits hop.1 c id
  | delTsk c id dormant running => exact inv.tkDelTsk fits c id dormant running
  | exdTsk i => exact (inv.mark hop.1 true).intoDsp fits i
  | intoDsp i => exact inv.intoDsp fits i
  | creDom domid atr oname => exact inv.tkCreDom fits domid atr oname
  | delDom domid => exact inv.tkDelDom fits hok
  | fdelDom domid => exact inv.tkFdelDom fits hok.1 hok.2

theorem mpDomainInitialize_cb (cfg : DomCfg) (o : ObjType × ℕ) : (mpDomainInitialize cfg).cb o =
    if o = (.dom, 0) then ⟨MP_KDMID_SELF, TA_PUBLIC, false, 0⟩ else ⟨0, 0, false, 0⟩ := rfl

theorem mpDomainInitialize_inv (cfg : DomCfg) : DomInv cfg (mpDomainInitialize cfg) := by
  have hkernel : (mpDomainInitialize cfg).cb (.dom, 0) = ⟨MP_KDMID_SELF, TA_PUBLIC, false, 0⟩ := by
    rw [mpDomainInitialize_cb, if_pos rfl]
  have hdead (o : ObjType × ℕ) (hne : o ≠ (.dom, 0)) : ¬Live (mpDomainInitialize cfg) o := by
    unfold Live
    rw [mpDomainInitialize_cb, if_neg hne]
    exact not_not.mpr rfl
  have hcb (o : ObjType × ℕ) (ho : Live (mpDomainInitialize cfg) o) : o = (.dom, 0) := by
    by_contra hne
    exact hdead o hne ho
  have hlive : Live (mpDomainInitialize cfg) (.dom, 0) := by
    unfold Live
    rw [hkernel]
    decide
  have hk : domOf (mpDomainInitialize cfg) (.dom, 0) = 0 := by
    unfold domOf
    rw [hkernel]
    rfl
  refine ⟨by rw [hkernel], ?_, ?_, ?_, ?_, ?_, ?_, ?_, ?_, ?_⟩
  · intro t i hl
    obtain ⟨rfl, rfl⟩ := Prod.mk.inj (hcb _ hl)
    rw [hk, hkernel]
    exact ⟨Nat.succ_pos _, rfl⟩
  · intro o hl
    rw [hcb o hl, hk]
    exact hlive
  · intro i hl
    obtain ⟨-, rfl⟩ := Prod.mk.inj (hcb _ hl)
    exact .kernel
  · intro o hl
    rw [hcb o hl, hkernel]
    rfl
  · intro i j hi hj _
    rw [(Prod.mk.inj (hcb _ hi)).2, (Prod.mk.inj (hcb _ hj)).2]
  · exact fun i hl => Nat.one_pos
  · intro d hl
    refine (List.countP_eq_zero.mpr fun o ho h => ?_).symm
    have h := of_decide_eq_true h
    exact (DomCfg.mem_objects.mp ho).2 (hcb o h.1)
  · intro t
    by_cases ht : t = .dom
    · subst ht
      show ((List.range (cfg.num .dom)).tail).Nodup ∧ ∀ i ∈ (List.range (cfg.num .dom)).tail, _
      refine ⟨List.nodup_range.tail, fun i hi => ?_⟩
      obtain ⟨hlt, hpos⟩ : i < cfg.num .dom ∧ i ≠ 0 := by
        rw [show cfg.num .dom = cfg.max .dom + 1 from rfl, List.range_succ_eq_map,
          List.tail_cons] at hi
        obtain ⟨j, hj, rfl⟩ := List.mem_map.mp hi
        have := List.mem_range.mp hj
        exact ⟨Nat.succ_lt_succ this, Nat.succ_ne_zero j⟩
      exact ⟨hlt, hdead _ fun e => hpos (Prod.mk.inj e).2⟩
    · have hfree : (mpDomainInitialize cfg).free t = List.range (cfg.num t) := if_neg ht
      rw [hfree]
      exact ⟨List.nodup_range, fun i hi => ⟨List.mem_range.mp hi, hdead _ fun e =>
        ht (Prod.mk.inj e).1⟩⟩
  · intro o ho
    rw [mpDomainInitialize_cb] at ho
    split_ifs at ho

theorem DomRun.inv (fits : cfg.Fits) (run : DomRun cfg DomOp.Sound s) : DomInv cfg s := by
  induction run with
  | init => exact mpDomainInitialize_inv cfg
  | step op _ hop hok ih => exact ih.run fits hop hok

/-! ## Counting -/

/-- What the counters of the domains should say: the counter of a live domain is the number of live
objects created in it, what is to be taken off for a live object is there, and `tk_del_dom` accepts
a domain other than the kernel domain exactly if no live object was created in it. -/
structure CountsRight (cfg : DomCfg) (s : DomState) : Prop where
  objcnt : ∀ d, Live s (.dom, d) →
    s.objcnt d = cfg.objects.countP fun o => Live s o ∧ (s.cb o).dom = s.serial d
  pos : ∀ o ∈ cfg.objects, Live s o → 0 < s.objcnt (INDEX .dom (mpGetDomidFromId s (s.cb o).id))
  delDom : ∀ d, (.dom, d) ∈ cfg.objects → Live s (.dom, d) →
    ((tkDelDom cfg s (s.cb (.dom, d)).id).2 = E_OK ↔
      ∀ o ∈ cfg.objects, Live s o → (s.cb o).dom ≠ s.serial d)

theorem DomInv.countIn_eq (inv : DomInv cfg s) (hd : Live s (.dom, d)) :
    countIn cfg s d = cfg.objects.countP fun o => Live s o ∧ (s.cb o).dom = s.serial d := by
  refine List.countP_congr fun o _ => ?_
  rw [decide_eq_true_iff, decide_eq_true_iff]
  refine and_congr_right fun hl => ?_
  rw [inv.owner o hl]
  exact ⟨fun e => by rw [e], fun e => inv.serial _ _ (inv.home o hl) hd e⟩

theorem DomInv.countsRight (inv : DomInv cfg s) (fits : cfg.Fits) : CountsRight cfg s := by
  refine ⟨fun d hd => (inv.count d hd).trans (inv.countIn_eq hd), fun o ho hl => ?_,
    fun d hd hl => ?_⟩
  · rw [inv.index_home fits hl rfl, inv.count _ (inv.home o hl)]
    exact countIn_pos ho hl
  · -- the ID of a live domain passes all checks but the one of the counter
    have hobj := inv.objid_dom fits hl
    have hidx : INDEX .dom (s.cb (.dom, d)).id = d := hobj
    have hid := (inv.id .dom d hl).2
    have hd8 := inv.dom_lt fits hl
    have hp8 := inv.dom_lt fits (inv.home _ hl)
    have hm : minId .dom = 0 := rfl
    have hchk : cfg.chkId .dom (s.cb (.dom, d)).id = true := by
      have h₁ := (inv.id .dom d hl).1
      have h₂ := (inv.id .dom _ (inv.home _ hl)).1
      have hnum : cfg.num .dom = cfg.max .dom + 1 := rfl
      refine decide_eq_true ⟨Nat.zero_le _, ?_, ?_, ?_⟩
      · rw [hobj]
        omega
      · have : GET_DOMID (s.cb (.dom, d)).id < cfg.num .dom := h₂
        omega
      · rw [GET_PRID_eq, hid, hm]
        omega
    have hne : (s.cb (.dom, d)).id ≠ MP_KDMID_SELF := by
      intro e
      have hd0 : d ≠ 0 := fun e => (DomCfg.mem_objects.mp hd).2 (by rw [e])
      rw [e] at hobj
      exact hd0 hobj.symm
    have hex : mpExistenceCheckOfDomain s (s.cb (.dom, d)).id = E_OK := by
      unfold mpExistenceCheckOfDomain domcbId
      rw [hidx, if_neg hl, (MP_CMP_DOMIDPART_iff _ _).mpr rfl]
      rfl
    have hcount : s.objcnt d = 0 ↔ ∀ o ∈ cfg.objects, Live s o → (s.cb o).dom ≠ s.serial d := by
      rw [inv.count d hl, inv.countIn_eq hl, List.countP_eq_zero]
      refine forall₂_congr fun o _ => ?_
      rw [decide_eq_true_iff, not_and]
    rw [← hcount]
    unfold SmpTKernel.tkDelDom
    rw [hchk, Bool.not_true, if_neg Bool.false_ne_true, if_neg hne, if_neg (not_not.mpr hex), hidx]
    by_cases h0 : s.objcnt d = 0
    · rw [if_neg (not_not.mpr h0)]
      exact ⟨fun _ => h0, fun _ => rfl⟩
    · rw [if_pos h0]
      exact ⟨fun e => absurd e (show E_OBJ ≠ E_OK by decide), fun e => absurd e h0⟩

/-- **The counts.** In every run in which domains deleted by force are empty, the counters of the
domains are right. -/
theorem domRun_countsRight (fits : cfg.Fits) (run : DomRun cfg DomOp.Sound s) : CountsRight cfg s :=
  (run.inv fits).countsRight fits

/-- One object of each kind. -/
def oneOfEach : DomCfg := ⟨fun _ => 1, 0⟩

theorem oneOfEach_fits : oneOfEach.Fits := ⟨by decide, fun _ => by show 1 < 2 ^ 16; decide⟩

/-- A call from a task-independent part. -/
def intCall : Caller := ⟨true, 0, 0⟩

/-- A semaphore in a domain, counted and deleted again. -/
theorem domRun_countsRight_sem :
    let s := (DomOp.creDom none 0 E_OK).run oneOfEach (mpDomainInitialize oneOfEach)
    let s := (DomOp.creObj .sem intCall (some 0x01000001) TA_PUBLIC E_OK).run oneOfEach s
    s.objcnt 1 = 1 ∧
    CountsRight oneOfEach ((DomOp.delObj .sem intCall 0x01010001).run oneOfEach s) := by
  intro s₁ s₂
  have run :
      DomRun oneOfEach DomOp.Sound ((DomOp.delObj .sem intCall 0x01010001).run oneOfEach s₂) :=
    ((DomRun.init.step _ (by trivial) (by trivial)).step _ (by decide) (by trivial)).step _
    (by decide)
      (by trivial)
  exact ⟨by decide +kernel, domRun_countsRight oneOfEach_fits run⟩

/-- The control block of a domain with a semaphore is given to another domain: the deletion of the
semaphore takes one off its counter of zero. -/
theorem domRun_counts_wrong :
    ¬∀ cfg s, DomCfg.Fits cfg → DomRun cfg (fun _ _ => True) s → CountsRight cfg s := by
  intro hall
  let s₁ := (DomOp.creDom none 0 E_OK).run oneOfEach (mpDomainInitialize oneOfEach)
  let s₂ := (DomOp.creObj .sem intCall (some 0x01000001) TA_PUBLIC E_OK).run oneOfEach s₁
  let s₃ := (DomOp.fdelDom 0x01000001).run oneOfEach s₂
  let s₄ := (DomOp.creDom none 0 E_OK).run oneOfEach s₃
  let s₅ := (DomOp.delObj .sem intCall 0x01010001).run oneOfEach s₄
  have run : DomRun oneOfEach (fun _ _ => True) s₅ :=
    ((((DomRun.init.step _ (by trivial) trivial).step _ (by decide) trivial).step _ (by trivial)
      trivial).step _ (by trivial) trivial).step _ (by decide) trivial
  have hcount := (hall _ _ oneOfEach_fits run).objcnt 1 (by decide +kernel)
  have hreal : s₅.objcnt 1 = 2 ^ 32 - 1 := by decide +kernel
  rw [hreal] at hcount
  have hlen : (oneOfEach.objects.countP fun o => Live s₅ o ∧ (s₅.cb o).dom = s₅.serial 1) ≤
      12 * 2 ^ 16 :=
    List.countP_le_length.trans oneOfEach_fits.length_objects
  rw [← hcount] at hlen
  exact absurd hlen (by decide)

/-! ## The protection check -/

/-- The parents of the live domains lead to the kernel domain. -/
def Forest (s : DomState) : Prop :=
  ∀ i, Live s (.dom, i) → ∃ k, (parent s)^[k] i = 0 ∧ ∀ j ≤ k, Live s (.dom, (parent s)^[j] i)

/-- The protection check of every object for every task ends, with the right answer. -/
def PchkExact (s : DomState) : Prop :=
  ∀ o i atr, Live s o → Live s (.tsk, i) →
    ∃ n ok, (∀ rounds ≥ n, traceDomainForPchk s (mpGetDomidFromId s (s.cb o).id) atr rounds
        (s.cb (.tsk, i)).id = some ok) ∧
      (ok = true ↔ domOf s o = domOf s (.tsk, i) ∨
        MP_GET_PATR atr = TA_PROTECTED ∧ ∃ k, (parent s)^[k] (domOf s (.tsk, i)) = domOf s o)

theorem DomInv.parent_kernel (inv : DomInv cfg s) : parent s 0 = 0 := by
  unfold parent domOf
  rw [inv.kernel]
  rfl

theorem DomInv.forest (inv : DomInv cfg s) : Forest s := by
  intro i hl
  induction inv.rooted i hl with
  | kernel => exact ⟨0, rfl, fun j hj => by rw [Nat.le_zero.mp hj]; exact hl⟩
  | @child i _ _ ih =>
    obtain ⟨k, hk, hlive⟩ := ih (inv.home _ hl)
    refine ⟨k + 1, hk, fun j hj => ?_⟩
    cases j with
    | zero => exact hl
    | succ j => exact hlive j (Nat.le_of_succ_le_succ hj)

theorem DomInv.getDomid (inv : DomInv cfg s) (fits : cfg.Fits) {id : ID} (hid : GET_DOMID id = i)
    (hl : Live s (.dom, i)) : mpGetDomidFromId s id = (s.cb (.dom, i)).id := by
  have hlt := inv.dom_lt fits hl
  have hidx : INDEX .dom i = i := by
    show GET_OBJID i - 0 = i
    rw [GET_OBJID_eq]
    omega
  unfold mpGetDomidFromId domcbId
  rw [hid, hidx]

theorem DomInv.round (inv : DomInv cfg s) (fits : cfg.Fits) {tskid : ID}
    (htsk : GET_DOMID tskid = i) (hl : Live s (.dom, i)) (domid : ID) (atr rounds : ℕ) :
    traceDomainForPchk s domid atr (rounds + 1) tskid =
      if (s.cb (.dom, i)).id = domid then some true
      else if MP_GET_PATR atr = TA_PROTECTED ∧ (s.cb (.dom, i)).id ≠ MP_KDMID_SELF then
        traceDomainForPchk s domid atr rounds (s.cb (.dom, i)).id
      else some false := by
  rw [traceDomainForPchk, inv.getDomid fits htsk hl]

/-- **The loop** goes from a domain to its parent until it meets the one it looks for or the kernel
domain. -/
theorem DomInv.trace (inv : DomInv cfg s) (fits : cfg.Fits) (domid : ID) (atr : ℕ)
    (hl : Live s (.dom, i)) :
    ∀ tskid, GET_DOMID tskid = i → ∃ n ok,
      (∀ rounds ≥ n, traceDomainForPchk s domid atr rounds tskid = some ok) ∧
      (ok = true ↔ (s.cb (.dom, i)).id = domid ∨
        MP_GET_PATR atr = TA_PROTECTED ∧ ∃ k, (s.cb (.dom, (parent s)^[k] i)).id = domid) := by
  induction inv.rooted i hl with
  | kernel =>
    intro tskid htsk
    have hfix (k : ℕ) : (parent s)^[k] 0 = 0 := Function.iterate_fixed inv.parent_kernel k
    refine ⟨1, (s.cb (.dom, 0)).id = domid, fun rounds hr => ?_, ?_⟩
    · obtain ⟨r, rfl⟩ := Nat.exists_eq_add_of_le' hr
      rw [inv.round fits htsk hl]
      by_cases he : (s.cb (.dom, 0)).id = domid
      · rw [if_pos he, decide_eq_true he]
      · rw [if_neg he, if_neg fun h => h.2 inv.kernel, decide_eq_false he]
    · rw [decide_eq_true_iff]
      constructor
      · exact Or.inl
      · rintro (h | ⟨-, k, hk⟩)
        · exact h
        · rwa [hfix] at hk
  | @child i _ _ ih =>
    intro tskid htsk
    by_cases hgo : MP_GET_PATR atr = TA_PROTECTED ∧ (s.cb (.dom, i)).id ≠ MP_KDMID_SELF
    · -- a protected object: on to the parent, unless the domain is found
      obtain ⟨n, ok, hn, hok⟩ := ih (inv.home _ hl) (s.cb (.dom, i)).id rfl
      refine ⟨n + 1, (s.cb (.dom, i)).id = domid ∨ ok = true, fun rounds hr => ?_, ?_⟩
      · obtain ⟨r, rfl⟩ := Nat.exists_eq_add_of_le' (Nat.le_of_add_left_le hr)
        rw [inv.round fits htsk hl]
        by_cases he : (s.cb (.dom, i)).id = domid
        · rw [if_pos he, decide_eq_true (Or.inl he)]
        · rw [if_neg he, if_pos hgo, hn r (Nat.le_of_succ_le_succ hr)]
          simp [he]
      · rw [decide_eq_true_iff, hok]
        constructor
        · rintro (h | h | ⟨hp, k, hk⟩)
          · exact Or.inl h
          · exact Or.inr ⟨hgo.1, 1, h⟩
          · exact Or.inr ⟨hp, k + 1, hk⟩
        · rintro (h | ⟨hp, k, hk⟩)
          · exact Or.inl h
          · cases k with
            | zero => exact Or.inl hk
            | succ k => exact Or.inr (Or.inr ⟨hp, k, hk⟩)
    · -- here the loop ends in any case
      refine ⟨1, (s.cb (.dom, i)).id = domid, fun rounds hr => ?_, ?_⟩
      · obtain ⟨r, rfl⟩ := Nat.exists_eq_add_of_le' hr
        rw [inv.round fits htsk hl]
        by_cases he : (s.cb (.dom, i)).id = domid
        · rw [if_pos he, decide_eq_true he]
        · rw [if_neg he, if_neg hgo, decide_eq_false he]
      · rw [decide_eq_true_iff]
        constructor
        · exact Or.inl
        · rintro (h | ⟨hp, k, hk⟩)
          · exact h
          · -- the domain is the kernel domain, its own parent
            have hi : i = 0 := by
              have hobj := inv.objid_dom fits hl
              rw [not_not.mp fun h => hgo ⟨hp, h⟩] at hobj
              exact hobj.symm
            subst hi
            rwa [Function.iterate_fixed inv.parent_kernel k] at hk

theorem DomInv.pchkExact (inv : DomInv cfg s) (fits : cfg.Fits) : PchkExact s := by
  intro o i atr ho hi
  have hod := inv.home _ ho
  have hid := inv.home _ hi
  rw [inv.getDomid fits rfl hod]
  obtain ⟨n, ok, hn, hok⟩ :=
    inv.trace fits (s.cb (.dom, domOf s o)).id atr hid (s.cb (.tsk, i)).id rfl
  refine ⟨n, ok, hn, hok.trans ?_⟩
  -- the IDs of live domains are told apart by the numbers of the domains
  have hinj {a b : ℕ} (ha : Live s (.dom, a)) (hb : Live s (.dom, b)) :
      (s.cb (.dom, a)).id = (s.cb (.dom, b)).id ↔ a = b := by
    constructor
    · intro e
      rw [← inv.objid_dom fits ha, e, inv.objid_dom fits hb]
    · rintro rfl
      rfl
  have hanc (k : ℕ) : Live s (.dom, (parent s)^[k] (domOf s (.tsk, i))) := by
    induction k with
    | zero => exact hid
    | succ k ih =>
      rw [Function.iterate_succ_apply']
      exact inv.home _ ih
  rw [hinj hid hod, eq_comm]
  refine or_congr_right (and_congr_right fun _ => exists_congr fun k => ?_)
  exact hinj (hanc k) hod

/-- **The protection check.** In every run in which domains deleted by force are empty, the live
domains form a forest rooted at the kernel domain, and the check of every object for every task ends
with the right answer. -/
theorem domRun_pchkExact (fits : cfg.Fits) (run : DomRun cfg DomOp.Sound s) :
    Forest s ∧ PchkExact s :=
  ⟨(run.inv fits).forest, (run.inv fits).pchkExact fits⟩

/-- Two objects of each kind, and two domains besides the kernel domain. -/
def twoOfEach : DomCfg := ⟨fun _ => 2, 0⟩

theorem twoOfEach_fits : twoOfEach.Fits := ⟨by decide, fun _ => by show 2 < 2 ^ 16; decide⟩

/-- A task in a domain in a domain, and a protected semaphore in the kernel domain. -/
theorem domRun_pchkExact_nested :
    let s := (DomOp.creDom none 0 E_OK).run twoOfEach (mpDomainInitialize twoOfEach)
    let s := (DomOp.creDom (some 0x01000001) 0 E_OK).run twoOfEach s
    let s := (DomOp.creObj .tsk intCall (some 0x01010002) TA_PUBLIC E_OK).run twoOfEach s
    let s := (DomOp.creObj .sem intCall none TA_PROTECTED E_OK).run twoOfEach s
    (s.cb (.tsk, 0)).id = 0x01020001 ∧ (s.cb (.sem, 0)).id = 0x01000001 ∧ Forest s ∧
    PchkExact s := by
  intro s₁ s₂ s₃ s₄
  have run : DomRun twoOfEach DomOp.Sound s₄ :=
    (((DomRun.init.step _ (by trivial) (by trivial)).step _ (by trivial) (by trivial)).step _
      (by decide)
      (by trivial)).step _ (by decide) (by trivial)
  exact ⟨by decide +kernel, by decide +kernel, domRun_pchkExact twoOfEach_fits run⟩

/-- A parent is deleted by force and its control block given to a child of its child: the check of a
protected object goes round for ever. -/
theorem domRun_pchk_ring :
    ¬∀ cfg s, DomCfg.Fits cfg → DomRun cfg (fun _ _ => True) s → Forest s ∧ PchkExact s := by
  intro hall
  let s₁ := (DomOp.creDom none 0 E_OK).run twoOfEach (mpDomainInitialize twoOfEach)
  let s₂ := (DomOp.creDom (some 0x01000001) 0 E_OK).run twoOfEach s₁
  let s₃ := (DomOp.fdelDom 0x01000001).run twoOfEach s₂
  let s₄ := (DomOp.creDom (some 0x01010002) 0 E_OK).run twoOfEach s₃
  let s₅ := (DomOp.creObj .tsk intCall (some 0x01020001) TA_PUBLIC E_OK).run twoOfEach s₄
  let s₆ := (DomOp.creObj .sem intCall none TA_PROTECTED E_OK).run twoOfEach s₅
  have run : DomRun twoOfEach (fun _ _ => True) s₆ :=
    (((((DomRun.init.step _ (by trivial) trivial).step _ (by trivial) trivial).step _ (by trivial)
      trivial).step _ (by trivial) trivial).step _ (by decide) trivial).step _ (by decide) trivial
  obtain ⟨n, ok, hn, -⟩ :=
    (hall _ _ twoOfEach_fits run).2 (.sem, 0) 0 TA_PROTECTED (by decide +kernel)
    (by decide +kernel)
  have htsk : (s₆.cb (.tsk, 0)).id = 0x01010001 := by decide +kernel
  have hdomid : mpGetDomidFromId s₆ (s₆.cb (.sem, 0)).id = MP_KDMID_SELF := by decide +kernel
  have h₁ : mpGetDomidFromId s₆ 0x01010001 = 0x01020001 := by decide +kernel
  have h₂ : mpGetDomidFromId s₆ 0x01020001 = 0x01010002 := by decide +kernel
  have h₃ : mpGetDomidFromId s₆ 0x01010002 = 0x01020001 := by decide +kernel
  have hround (rounds : ℕ) {x y : ID} (hxy : mpGetDomidFromId s₆ x = y) (hy : y ≠ MP_KDMID_SELF) :
      traceDomainForPchk s₆ MP_KDMID_SELF TA_PROTECTED (rounds + 1) x =
        traceDomainForPchk s₆ MP_KDMID_SELF TA_PROTECTED rounds y := by
    rw [traceDomainForPchk, hxy, if_neg hy, if_pos ⟨by decide, hy⟩]
  have hring (rounds : ℕ) : traceDomainForPchk s₆ MP_KDMID_SELF TA_PROTECTED rounds 0x01020001 =
    none ∧
      traceDomainForPchk s₆ MP_KDMID_SELF TA_PROTECTED rounds 0x01010002 = none := by
    induction rounds with
    | zero => exact ⟨rfl, rfl⟩
    | succ rounds ih =>
      rw [hround rounds h₂ (by decide), hround rounds h₃ (by decide)]
      exact ih.symm
  have hend := hn (n + 1) (Nat.le_succ n)
  rw [htsk, hdomid, hround n h₁ (by decide), (hring n).1] at hend
  cases hend

end SmpTKernel
