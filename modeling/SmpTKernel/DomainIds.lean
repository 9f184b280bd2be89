import SmpTKernel.DomainRuns

/-!
# Control blocks and IDs

A control block is in its free queue once, or it has an object with the ID that leads to it. Other
than what holds of the domains this needs nothing of the calls, so it is true in all runs, with
forced deletions too. What the calls do to the control blocks is one case of success for each, and
an error that changes nothing.
-/

namespace SmpTKernel

variable {cfg : DomCfg} {s s' : DomState} {t : ObjType} {i : ℕ} {id domid : ID}
  {ok : DomState → DomOp → Prop}

/-- The number of the object in the control block `i`. -/
def IdOf (cfg : DomCfg) (t : ObjType) (i : ℕ) (id : ID) : Prop :=
  i < cfg.num t ∧ ∃ d ≤ cfg.max .dom, id = 2 ^ 24 + d * 2 ^ 16 + (i + minId t)

theorem chkId_dom (h : cfg.chkId .dom domid = true) : GET_OBJID domid ≤ cfg.max .dom := by
  unfold DomCfg.chkId at h
  rw [decide_eq_true_iff] at h
  exact h.2.1

theorem IdOf.objid (h : IdOf cfg t i id) (fits : cfg.Fits) : GET_OBJID id = i + minId t := by
  obtain ⟨hi, d, hd, rfl⟩ := h
  have := fits.num_le t
  rw [GET_OBJID_eq]
  omega

theorem IdOf.ne_zero (h : IdOf cfg t i id) : id ≠ 0 := by
  obtain ⟨-, d, -, rfl⟩ := h
  exact Nat.ne_of_gt (by omega)

theorem IdOf.index (h : IdOf cfg t i id) (fits : cfg.Fits) : INDEX t id = i := by
  unfold INDEX
  rw [h.objid fits]
  omega

theorem IdOf.chkId (h : IdOf cfg t i id) (fits : cfg.Fits) : cfg.chkId t id = true := by
  have hobj := h.objid fits
  obtain ⟨hi, d, hd, rfl⟩ := h
  have hnum := fits.num_le t
  have hdom := fits.dom
  unfold DomCfg.num at hi hnum
  unfold DomCfg.chkId
  rw [decide_eq_true_iff, hobj, GET_DOMID_eq, GET_PRID_eq]
  refine ⟨?_, ?_, ?_, ?_⟩ <;> omega

theorem target_le {domid : Option ID} (h : (domid.any fun d => !cfg.chkId .dom d) ≠ true) :
    GET_OBJID (domid.getD MP_KDMID) ≤ cfg.max .dom := by
  cases domid with
  | none => exact Nat.zero_le _
  | some domid => exact chkId_dom (by simpa using h)

theorem IdOf.newId (fits : cfg.Fits) (hi : i < cfg.num t) (hd : GET_OBJID domid ≤ cfg.max .dom) :
    IdOf cfg t i (MP_GEN_DOMIDPART domid ||| ID_OF t i) :=
  ⟨hi, _, hd, newId_eq fits (hd.trans_lt fits.dom) hi⟩

theorem DomInv.idOf (inv : DomInv cfg s) (hl : Live s (t, i)) : IdOf cfg t i (s.cb (t, i)).id := by
  obtain ⟨hi, hid⟩ := inv.id t i hl
  have hd := (inv.id .dom _ (inv.home _ hl)).1
  exact ⟨hi, domOf s (t, i), Nat.le_of_lt_succ hd, hid⟩

/-! ## What the calls do -/

/-- A creation fails and changes nothing, or puts an object in a free control block; `ercd` is the
error of the check of the name. -/
inductive Created (cfg : DomCfg) (s : DomState) (t : ObjType) (domid : Option ID) (ercd : ER) :
    DomState × Option ℤ → Prop
  | failed (r : Option ℤ) (hr : ∀ v ∈ r, v < 0 ∨ v = ercd ∧ ercd ≠ E_OK) :
      Created cfg s t domid ercd (s, r)
  | made {s' : DomState} {i : ℕ} {rest : List ℕ} (cb : ObjCb) (free : s.free t = i :: rest)
      (hercd : ercd = E_OK) (target : GET_OBJID (domid.getD MP_KDMID) ≤ cfg.max .dom)
      (cb_eq : s'.cb = Function.update s.cb (t, i) cb)
      (id : cb.id = MP_GEN_DOMIDPART (domid.getD MP_KDMID) ||| ID_OF t i)
      (stkfree : cb.stkfree = false) (free_eq : s'.free = Function.update s.free t rest) :
      Created cfg s t domid ercd (s', some (cb.id : ℤ))

/-- A deletion fails and changes nothing, or frees the control block of the object. -/
inductive Deleted (s : DomState) (t : ObjType) (i : ℕ) (id : ID) : DomState × Option ℤ → Prop
  | failed (r : Option ℤ) (hr : r ≠ some E_OK) : Deleted s t i id (s, r)
  | gone {s' : DomState} (live : Live s (t, i)) (part : GET_DOMID id = domOf s (t, i))
      (cb_eq : s'.cb = Function.update s.cb (t, i) ⟨0, 0, false, 0⟩)
      (free_eq : s'.free = Function.update s.free t (s.free t ++ [i])) :
      Deleted s t i id (s', some E_OK)

theorem Created.error {domid : Option ID} {ercd v : ℤ} (hv : v < 0) :
    Created cfg s t domid ercd (s, some v) :=
  .failed _ fun _ hw => Or.inl (Option.some.inj hw ▸ hv)

theorem mpCheckProtectionCre_neg {c : Caller} {atr : ℕ} {v : ER}
    (h : mpCheckProtectionCre cfg s c domid atr = some v) (hv : v ≠ E_OK) : v < 0 := by
  unfold mpCheckProtectionCre at h
  split_ifs at h
  · exact absurd (Option.some.inj h).symm hv
  · obtain ⟨b, -, rfl⟩ := Option.map_eq_some_iff.mp h
    cases b
    · decide
    · exact absurd rfl hv

theorem creObj_created (s : DomState) (t : ObjType) (c : Caller) (domid : Option ID) (atr : ℕ)
    (ercd : ER) :
    Created cfg s t domid ercd (creObj cfg s t c domid atr ercd) := by
  unfold creObj
  split_ifs with _ hchk _ hname
  · exact .error (by decide)
  · exact .error (by decide)
  · exact .error (by decide)
  · exact .failed _ fun v hv => Or.inr ⟨(Option.some.inj hv).symm, hname⟩
  dsimp only
  rcases hprot : mpCheckProtectionCre cfg s c (domid.getD MP_KDMID) atr with _ | prot
  · exact .failed _ nofun
  dsimp only
  by_cases he : prot ≠ E_OK
  · rw [if_pos he]
    exact .error (mpCheckProtectionCre_neg hprot he)
  rw [if_neg he]
  rcases hfree : s.free t with _ | ⟨i, rest⟩
  · exact .error (by decide)
  · exact .made ⟨_, atr, false, _⟩ hfree (not_not.mp hname) (target_le hchk) rfl rfl rfl rfl

theorem tkCreDom_created (s : DomState) (domid : Option ID) (atr : ℕ) (ercd : ER) :
    Created cfg s .dom domid ercd ((tkCreDom cfg s domid atr ercd).1, some
      (tkCreDom cfg s domid atr ercd).2) := by
  unfold tkCreDom
  split_ifs with hchk _ hname
  · exact .error (v := E_ID) (by decide)
  · exact .error (v := E_NOEXS) (by decide)
  · exact .failed _ fun v hv => Or.inr ⟨(Option.some.inj hv).symm, hname⟩
  dsimp only
  rcases hfree : s.free .dom with _ | ⟨i, rest⟩
  · exact .error (v := E_LIMIT) (by decide)
  · exact .made ⟨_, atr, false, _⟩ hfree (not_not.mp hname) (target_le hchk) rfl rfl rfl rfl

theorem check_part {c : Caller} {argid objid : ID} {atr : ℕ} {v : ER} (hv : ¬v ≠ E_OK)
    (h : mpCheckDomainAndProtection cfg s c argid objid atr = some v) :
    GET_DOMID argid = GET_DOMID objid :=
  checkDomain_part (not_not.mp hv ▸ h)

theorem delObj_deleted (s : DomState) (t : ObjType) (c : Caller) (id : ID) :
    Deleted s t (INDEX t id) id (delObj cfg s t c id) := by
  unfold delObj
  dsimp only
  by_cases hchk : (!cfg.chkId t id) = true
  · rw [if_pos hchk]
    exact .failed _ (by decide)
  rw [if_neg hchk]
  by_cases hlive : (s.cb (t, INDEX t id)).id = 0
  · rw [if_pos hlive]
    exact .failed _ (by decide)
  rw [if_neg hlive]
  rcases hcheck : mpCheckDomainAndProtection cfg s c id (s.cb (t, INDEX t id)).id
    (s.cb (t, INDEX t id)).atr with _ | ercd
  · exact .failed _ nofun
  dsimp only
  by_cases he : ercd ≠ E_OK
  · rw [if_pos he]
    exact .failed _ fun h => he (Option.some.inj h)
  · rw [if_neg he]
    exact .gone hlive (check_part he hcheck) rfl rfl

theorem tkDelDom_deleted (s : DomState) (domid : ID) :
    Deleted s .dom (INDEX .dom domid) domid ((tkDelDom cfg s domid).1, some
      (tkDelDom cfg s domid).2) := by
  unfold tkDelDom
  split_ifs with _ _ hex
  · exact .failed (some E_ID) (by decide)
  · exact .failed (some E_OBJ) (by decide)
  · exact .failed (some E_NOEXS) (by decide)
  · exact .failed (some E_OBJ) (by decide)
  · obtain ⟨hlive, hpart⟩ := existence_live (not_not.mp hex)
    exact .gone hlive hpart.symm rfl rfl

theorem tkFdelDom_deleted (s : DomState) (domid : ID) :
    Deleted s .dom (INDEX .dom domid) domid ((tkFdelDom cfg s domid).1, some
      (tkFdelDom cfg s domid).2) := by
  unfold tkFdelDom
  split_ifs with _ _ hex
  · exact .failed (some E_ID) (by decide)
  · exact .failed (some E_OBJ) (by decide)
  · exact .failed (some E_NOEXS) (by decide)
  · obtain ⟨hlive, hpart⟩ := existence_live (not_not.mp hex)
    exact .gone hlive hpart.symm rfl rfl

theorem delTask_deleted (hl : Live s (.tsk, i)) :
    Deleted s .tsk i (s.cb (.tsk, i)).id (delTask s i, some E_OK) :=
  .gone hl rfl rfl rfl

/-- The deletion of the task is left to the dispatcher. -/
def setStkfree (s : DomState) (i : ℕ) : DomState :=
  { s with cb := Function.update s.cb (.tsk, i) { s.cb (.tsk, i) with stkfree := true } }

/-- The control block of a task that still runs is marked only. -/
inductive Marked (s : DomState) (i : ℕ) : DomState × Option ℤ → Prop
  | failed (r : Option ℤ) (hr : r ≠ some E_OK) : Marked s i (s, r)
  | marked (live : Live s (.tsk, i)) : Marked s i (setStkfree s i, some E_OK)

theorem tkDelTsk_cases (cfg : DomCfg) (s : DomState) (c : Caller) (id : ID)
    (dormant running : Bool) :
    let r := tkDelTsk cfg s c id dormant running
    (running = false → Deleted s .tsk (INDEX .tsk id) id r) ∧
    (running = true → Marked s (INDEX .tsk id) r) := by
  have hfail (v : Option ℤ) (hv : v ≠ some E_OK) :
      (running = false → Deleted s .tsk (INDEX .tsk id) id (s, v)) ∧
        (running = true → Marked s (INDEX .tsk id) (s, v)) :=
    ⟨fun _ => .failed _ hv, fun _ => .failed _ hv⟩
  dsimp only
  unfold tkDelTsk
  dsimp only
  by_cases hchk : (!cfg.chkId .tsk id) = true
  · rw [if_pos hchk]
    exact hfail _ (by decide)
  rw [if_neg hchk]
  by_cases hlive : (s.cb (.tsk, INDEX .tsk id)).id = 0 ∨ (s.cb (.tsk, INDEX .tsk id)).stkfree = true
  · rw [if_pos hlive]
    exact hfail _ (by decide)
  rw [if_neg hlive]
  have hl : Live s (.tsk, INDEX .tsk id) := fun h => hlive (Or.inl h)
  rcases hcheck : mpCheckDomainAndProtection cfg s c id (s.cb (.tsk, INDEX .tsk id)).id
    (s.cb (.tsk, INDEX .tsk id)).atr with _ | ercd
  · exact hfail _ nofun
  dsimp only
  by_cases he : ercd ≠ E_OK
  · rw [if_pos he]
    exact hfail _ fun h => he (Option.some.inj h)
  rw [if_neg he]
  by_cases hdor : (!dormant) = true
  · rw [if_pos hdor]
    exact hfail _ (by decide)
  rw [if_neg hdor]
  cases running with
  | true => exact ⟨nofun, fun _ => .marked hl⟩
  | false => exact ⟨fun _ => .gone hl (check_part he hcheck) rfl rfl, nofun⟩

theorem tkExdTsk_eq (s : DomState) (i : ℕ) : tkExdTsk s i = delTask (setStkfree s i) i := by
  have hmark : ((setStkfree s i).cb (.tsk, i)).stkfree = true := by
    show (Function.update s.cb (.tsk, i) _ (.tsk, i)).stkfree = true
    rw [Function.update_self]
  exact if_pos hmark

theorem tkExdTsk_cb (s : DomState) (i : ℕ) :
    (tkExdTsk s i).cb = Function.update s.cb (.tsk, i) ⟨0, 0, false, 0⟩ := by
  rw [tkExdTsk_eq]
  exact Function.update_idem _ _ _

theorem tkExdTsk_deleted (hl : Live s (.tsk, i)) :
    Deleted s .tsk i (s.cb (.tsk, i)).id (tkExdTsk s i, some E_OK) := by
  have hcb := tkExdTsk_cb s i
  rw [tkExdTsk_eq] at hcb ⊢
  exact .gone hl rfl hcb rfl

/-! ## The invariant -/

structure IdInv (cfg : DomCfg) (s : DomState) : Prop where
  id : ∀ t i, Live s (t, i) → IdOf cfg t i (s.cb (t, i)).id
  /-- The free control blocks are in the free queue, once, and no others. -/
  free : ∀ t, (s.free t).Nodup ∧ ∀ i, i ∈ s.free t ↔ i < cfg.num t ∧ ¬Live s (t, i)
  marked : ∀ o, (s.cb o).stkfree = true → Live s o

theorem IdInv.created (inv : IdInv cfg s) (fits : cfg.Fits) {domid : Option ID} {ercd : ER}
    {r : DomState × Option ℤ} (h : Created cfg s t domid ercd r) : IdInv cfg r.1 := by
  cases h with
  | failed => exact inv
  | @made s' i rest cb hfree _ hd hcb hid hstk hfree' =>
    obtain ⟨hnd, hmem⟩ := inv.free t
    rw [hfree] at hnd hmem
    obtain ⟨hi, hdead⟩ := (hmem i).mp List.mem_cons_self
    have hidof : IdOf cfg t i cb.id := hid ▸ IdOf.newId fits hi hd
    have hself : Live s' (t, i) := by
      unfold Live
      rw [hcb, Function.update_self]
      exact hidof.ne_zero
    refine ⟨fun t' j hl => ?_, fun t' => ?_, fun o ho => ?_⟩
    · by_cases he : (t', j) = (t, i)
      · obtain ⟨rfl, rfl⟩ := Prod.mk.inj he
        rw [hcb, Function.update_self]
        exact hidof
      · rw [hcb, Function.update_of_ne he]
        exact inv.id t' j ((live_update hcb he).mp hl)
    · rw [hfree']
      by_cases he : t' = t
      · subst he
        rw [Function.update_self]
        refine ⟨(List.nodup_cons.mp hnd).2, fun j => ?_⟩
        by_cases hj : j = i
        · subst hj
          exact iff_of_false (List.nodup_cons.mp hnd).1 fun h => h.2 hself
        · rw [live_update hcb fun e => hj (Prod.mk.inj e).2, ← hmem j, List.mem_cons,
            or_iff_right hj]
      · rw [Function.update_of_ne he]
        refine ⟨(inv.free t').1, fun j => ?_⟩
        rw [live_update hcb fun e => he (Prod.mk.inj e).1]
        exact (inv.free t').2 j
    · by_cases he : o = (t, i)
      · rw [he, hcb, Function.update_self, hstk] at ho
        cases ho
      · rw [hcb, Function.update_of_ne he] at ho
        exact (live_update hcb he).mpr (inv.marked o ho)

theorem IdInv.deleted (inv : IdInv cfg s) {r : DomState × Option ℤ} (h : Deleted s t i id r) :
    IdInv cfg r.1 := by
  cases h with
  | failed => exact inv
  | @gone s' hl _ hcb hfree' =>
    have hdead : ¬Live s' (t, i) := by
      unfold Live
      rw [hcb, Function.update_self]
      exact not_not.mpr rfl
    have hold {o : ObjType × ℕ} (ho : Live s' o) : o ≠ (t, i) := fun e => hdead (e ▸ ho)
    refine ⟨fun t' j hl' => ?_, fun t' => ?_, fun o ho => ?_⟩
    · rw [hcb, Function.update_of_ne (hold hl')]
      exact inv.id t' j ((live_update hcb (hold hl')).mp hl')
    · rw [hfree']
      by_cases he : t' = t
      · subst he
        obtain ⟨hnd, hmem⟩ := inv.free t'
        rw [Function.update_self]
        constructor
        · rw [List.nodup_append]
          refine ⟨hnd, List.nodup_singleton i, fun a ha b hb e => ?_⟩
          rw [List.mem_singleton.mp hb] at e
          exact ((hmem a).mp ha).2 (e ▸ hl)
        · intro j
          rw [List.mem_append, List.mem_singleton]
          by_cases hj : j = i
          · subst hj
            exact iff_of_true (Or.inr rfl) ⟨(inv.id t' j hl).1, hdead⟩
          · rw [live_update hcb fun e => hj (Prod.mk.inj e).2, ← hmem j, or_iff_left hj]
      · rw [Function.update_of_ne he]
        refine ⟨(inv.free t').1, fun j => ?_⟩
        rw [live_update hcb fun e => he (Prod.mk.inj e).1]
        exact (inv.free t').2 j
    · have he : o ≠ (t, i) := by
        rintro rfl
        rw [hcb, Function.update_self] at ho
        cases ho
      rw [hcb, Function.update_of_ne he] at ho
      exact (live_update hcb he).mpr (inv.marked o ho)

theorem setStkfree_id (s : DomState) (i : ℕ) (o : ObjType × ℕ) :
    ((setStkfree s i).cb o).id = (s.cb o).id := by
  show (Function.update s.cb (.tsk, i) _ o).id = _
  by_cases ho : o = (.tsk, i)
  · rw [ho, Function.update_self]
  · rw [Function.update_of_ne ho]

theorem IdInv.mark (inv : IdInv cfg s) {r : DomState × Option ℤ} (h : Marked s i r) :
    IdInv cfg r.1 := by
  rcases h with _ | hl
  · exact inv
  have hlive (o : ObjType × ℕ) : Live (setStkfree s i) o ↔ Live s o := by
    unfold Live
    rw [setStkfree_id]
  refine ⟨fun t j hj => ?_, fun t => ?_, fun o ho => ?_⟩
  · rw [setStkfree_id]
    exact inv.id t j ((hlive _).mp hj)
  · refine ⟨(inv.free t).1, fun j => ?_⟩
    rw [hlive]
    exact (inv.free t).2 j
  · rw [hlive]
    by_cases he : o = (.tsk, i)
    · exact he ▸ hl
    · refine inv.marked o ?_
      rwa [show (setStkfree s i).cb o = s.cb o from Function.update_of_ne he _ _] at ho

theorem IdInv.run (inv : IdInv cfg s) (fits : cfg.Fits) {op : DomOp} (hop : op.Legal s) :
    IdInv cfg (op.run cfg s) := by
  cases op with
  | creObj t c domid atr oname => exact inv.created fits (creObj_created s t c domid atr oname)
  | delObj t c id => exact inv.deleted (delObj_deleted s t c id)
  | delTsk c id dormant running =>
    have h := tkDelTsk_cases cfg s c id dormant running
    show IdInv cfg (tkDelTsk cfg s c id dormant running).1
    cases running with
    | false => exact inv.deleted (h.1 rfl)
    | true => exact inv.mark (h.2 rfl)
  | exdTsk i => exact inv.deleted (tkExdTsk_deleted hop.1)
  | intoDsp i =>
    show IdInv cfg (SmpTKernel.intoDsp s i)
    unfold SmpTKernel.intoDsp
    split_ifs with hs
    · exact inv.deleted (delTask_deleted (inv.marked _ hs))
    · exact inv
  | creDom domid atr oname => exact inv.created fits (tkCreDom_created s domid atr oname)
  | delDom domid => exact inv.deleted (tkDelDom_deleted s domid)
  | fdelDom domid => exact inv.deleted (tkFdelDom_deleted s domid)

theorem mpDomainInitialize_ids (cfg : DomCfg) : IdInv cfg (mpDomainInitialize cfg) := by
  have inv := mpDomainInitialize_inv cfg
  have hlive (o : ObjType × ℕ) : Live (mpDomainInitialize cfg) o ↔ o = (.dom, 0) := by
    unfold Live
    rw [mpDomainInitialize_cb]
    split_ifs with ho
    · exact iff_of_true (by decide) ho
    · exact iff_of_false (not_not.mpr rfl) ho
  refine ⟨fun t i hl => ?_, fun t => ⟨(inv.free t).1, fun i => ⟨(inv.free t).2 i, ?_⟩⟩, inv.marked⟩
  · obtain ⟨hi, hid⟩ := inv.id t i hl
    refine ⟨hi, 0, Nat.zero_le _, ?_⟩
    rw [hid, (hlive _).mp hl]
    unfold domOf
    rw [mpDomainInitialize_cb]
    rfl
  · rintro ⟨hi, hdead⟩
    rw [hlive] at hdead
    show i ∈ if t = .dom then (List.range (cfg.num .dom)).tail else List.range (cfg.num t)
    split_ifs with ht
    · subst ht
      obtain ⟨k, rfl⟩ : ∃ k, i = k + 1 := Nat.exists_eq_succ_of_ne_zero fun h => hdead (by rw [h])
      rw [show cfg.num .dom = cfg.max .dom + 1 from rfl, List.range_succ_eq_map, List.tail_cons]
      have : k + 1 < cfg.max .dom + 1 := hi
      exact List.mem_map.mpr ⟨k, List.mem_range.mpr (by omega), rfl⟩
    · exact List.mem_range.mpr hi

theorem DomRun.ids (run : DomRun cfg ok s) (fits : cfg.Fits) : IdInv cfg s := by
  induction run with
  | init => exact mpDomainInitialize_ids cfg
  | step op _ hop _ ih => exact ih.run fits hop

end SmpTKernel
