import SmpTKernel.DomainIds
import SmpTKernel.TaskSelf

/-!
# `TSK_SELF` and the number of the caller

The number in a control block passes the check of numbers and leads back to the control block, in
all runs. The domain of the caller is on the way from the caller to the kernel domain, so the check
with its own number ends with `E_OK` at its first round. `tk_can_wup` is the one call whose check
does not know `TSK_SELF`: it takes 0 for the number of a task of the kernel domain.
-/

namespace SmpTKernel

/-! ## The caller -/

variable {e : SelfEnv} {s : TaskSys} {c : TaskCtx} {me : ID} {par : ER} {pk : SelfPacket}
  {check check' : ID → ID → ℕ → Option ER} {call : Tsk → TaskRes} {ok : DomState → DomOp → Prop}

namespace TaskSys

/-- `me` is the number of the caller, a task. -/
structure Own (cfg : DomCfg) (s : TaskSys) (c : TaskCtx) (me : ID) : Prop where
  indp : c.indp = false
  id : (s.obj c.tsk).id = me
  chk : cfg.chkId .tsk me = true
  index : INDEX .tsk me = c.tsk
  ne : me ≠ TSK_SELF

theorem own (fits : e.cfg.Fits) (run : DomRun e.cfg ok s.dom) (hl : Live s.dom (.tsk, c.tsk))
    (hindp : c.indp = false) : Own e.cfg s c (s.obj c.tsk).id := by
  have hid := (run.ids fits).id _ _ hl
  exact ⟨hindp, rfl, hid.chkId fits, hid.index fits, hl⟩

theorem Own.chkTskidSelf (own : Own e.cfg s c me) :
    chkTskidSelf e.cfg c TSK_SELF = true ∧ chkTskidSelf e.cfg c me = true := by
  simp [TaskSys.chkTskidSelf, own.indp, own.chk]

theorem Own.getTcbSelf (own : Own e.cfg s c me) :
    getTcbSelf c TSK_SELF = c.tsk ∧ getTcbSelf c me = c.tsk := by
  simp [TaskSys.getTcbSelf, own.ne, own.index]

theorem mpCheckTsk_own (s : TaskSys) (c : TaskCtx) (h : (s.obj c.tsk).id = me) (atr : ℕ) :
    s.mpCheck e.cfg c me me atr = some E_OK := by
  have htrace : traceDomainForPchk s.dom (mpGetDomidFromId s.dom me) atr (e.cfg.num .dom) me =
      some true := by
    show traceDomainForPchk s.dom _ atr (e.cfg.max .dom + 1) me = some true
    unfold traceDomainForPchk
    exact if_pos rfl
  have hme : (s.dom.cb (.tsk, c.tsk)).id = me := h
  unfold mpCheck mpCheckDomainAndProtection caller
  dsimp only
  rw [hme, htrace, (MP_CMP_DOMIDPART_iff me me).mpr rfl, if_neg (by simp)]
  split_ifs
  · rfl
  · rfl

/-- The two numbers make no difference where the checks make none. -/
theorem Own.onTaskSelf_congr (own : Own e.cfg s c me)
    (h : (s.kern.tcb c.tsk).state ≠ .nonexist →
      ∀ atr, check TSK_SELF me atr = check me me atr) :
    s.onTaskSelf e.cfg c TSK_SELF par check pk call = s.onTaskSelf e.cfg c me par check pk
      call := by
  unfold onTaskSelf
  rw [own.chkTskidSelf.1, own.chkTskidSelf.2, own.getTcbSelf.1, own.getTcbSelf.2]
  dsimp only
  unfold checkTask
  rw [own.id]
  by_cases hn : (s.kern.tcb c.tsk).state = .nonexist
  · rw [if_pos hn, if_pos hn]
  · rw [h hn]

theorem Own.checkTsk (own : Own e.cfg s c me) (atr : ℕ) :
    s.mpCheckTsk e.cfg c TSK_SELF me atr = s.mpCheckTsk e.cfg c me me atr := by
  unfold mpCheckTsk
  rw [if_pos rfl, if_neg own.ne, mpCheckTsk_own s c own.id]

theorem checkTd (atr : ℕ) : tdCheck TSK_SELF me atr = tdCheck me me atr := by
  unfold tdCheck
  rw [(MP_CMP_DOMIDPART_iff me me).mpr rfl]
  simp

theorem Own.checkSigTev (own : Own e.cfg s c me) (atr : ℕ) :
    (if (TSK_SELF : ID) ≠ TSK_SELF then s.mpCheck e.cfg c TSK_SELF me atr else some E_OK) =
      if me ≠ TSK_SELF then s.mpCheck e.cfg c me me atr else some E_OK := by
  rw [if_neg (not_not.mpr rfl), if_pos own.ne, mpCheckTsk_own s c own.id]

/-- A task of the kernel domain has the domain ID part of `TSK_SELF`. -/
theorem check_kernel (hd : GET_DOMID me = 0) (atr : ℕ) :
    s.mpCheck e.cfg c TSK_SELF me atr = s.mpCheck e.cfg c me me atr := by
  unfold mpCheck mpCheckDomainAndProtection
  rw [(MP_CMP_DOMIDPART_iff me me).mpr rfl, (MP_CMP_DOMIDPART_iff TSK_SELF me).mpr hd.symm]

theorem check_other (hd : GET_DOMID me ≠ 0) (atr : ℕ) :
    s.mpCheck e.cfg c TSK_SELF me atr = some E_NOEXS := by
  have : MP_CMP_DOMIDPART TSK_SELF me = false :=
    Bool.eq_false_iff.mpr fun h => hd ((MP_CMP_DOMIDPART_iff TSK_SELF me).mp h).symm
  unfold mpCheck mpCheckDomainAndProtection
  rw [this]
  rfl

theorem Own.rasCritical (own : Own e.cfg s c me) (texcd : ℤ) :
    s.rasCritical e.cfg c TSK_SELF c.tsk texcd = s.rasCritical e.cfg c me c.tsk texcd := by
  unfold TaskSys.rasCritical
  rw [own.id, own.checkTsk]

theorem Own.rasTex (own : Own e.cfg s c me) (texcd : ℤ) :
    s.tkRasTex e.cfg c e.svc TSK_SELF texcd = s.tkRasTex e.cfg c e.svc me texcd := by
  have own' : Own e.cfg (e.svc.lockSVC c.tsk c.tsk s) c me :=
    { own with id := (e.svc.lock_id c.tsk c.tsk s).trans own.id }
  unfold tkRasTex
  rw [own.chkTskidSelf.1, own.chkTskidSelf.2, own.getTcbSelf.1, own.getTcbSelf.2]
  dsimp only
  rw [own'.rasCritical]

/-- With another domain ID part the call is refused for `TSK_SELF` only. -/
theorem Own.canWup (own : Own e.cfg s c me) (hd : GET_DOMID me ≠ 0)
    (hn : (s.kern.tcb c.tsk).state ≠ .nonexist) :
    s.tkCanWup e.cfg c TSK_SELF = (s, some E_NOEXS, .none) ∧
      s.tkCanWup e.cfg c me = s.ofKern (s.kern.canWup c.tsk E_OK) := by
  unfold tkCanWup onTaskSelf
  rw [own.chkTskidSelf.1, own.chkTskidSelf.2, own.getTcbSelf.1, own.getTcbSelf.2]
  dsimp only
  unfold checkTask
  rw [own.id, check_other hd, mpCheckTsk_own s c own.id]
  constructor
  · simp [hn]
  · simp [hn]

/-- The count goes down to 0, or the error is another one. -/
theorem canWup_ne (t : Tsk) (hn : (s.kern.tcb t).state ≠ .nonexist) :
    s.ofKern (s.kern.canWup t E_OK) ≠ (s, some E_NOEXS, .none) := by
  unfold ofKern Kern.canWup Kern.onTask Kern.checked
  rw [if_neg (not_not.mpr rfl), if_neg hn]
  split_ifs
  · simp
  · intro h
    have hval : (s.kern.tcb t).wupcnt = E_NOEXS := by simpa using congrArg (·.2.1) h
    have hcnt := congrArg (fun r : TaskRes => (r.1.kern.tcb t).wupcnt) h
    simp [Kern.note, Kern.upd, hval] at hcnt

end TaskSys

open TaskSys in
/-- `TSK_SELF` and the number of the caller do the same in all calls but `tk_can_wup` of a task that
is not of the kernel domain. -/
theorem taskSelf_iff (e : SelfEnv) (fits : e.cfg.Fits) (s : TaskSys) (ok : DomState → DomOp → Prop)
    (run : DomRun e.cfg ok s.dom) (c : TaskCtx) (hindp : c.indp = false)
    (hlive : Live s.dom (.tsk, c.tsk)) (call : SelfCall) :
    call.exec e s c TSK_SELF = call.exec e s c (s.obj c.tsk).id ↔
      (call = .canWup → GET_DOMID (s.obj c.tsk).id = 0 ∨ (s.kern.tcb c.tsk).state = .nonexist) := by
  have own := TaskSys.own fits run hlive hindp
  by_cases hcall : call = .canWup
  · subst hcall
    show s.tkCanWup e.cfg c TSK_SELF = s.tkCanWup e.cfg c _ ↔ _
    constructor
    · intro heq _
      by_contra hno
      obtain ⟨hd, hn⟩ := not_or.mp hno
      obtain ⟨hself, hown⟩ := own.canWup hd hn
      rw [hself, hown] at heq
      exact canWup_ne c.tsk hn heq.symm
    · intro h
      refine own.onTaskSelf_congr fun hn => ?_
      exact check_kernel ((h rfl).resolve_right hn)
  · refine iff_of_true ?_ fun h => absurd h hcall
    cases call with
    | canWup => exact absurd rfl hcall
    | sigTev tskevt =>
      simp only [SelfCall.exec, tkSigTev]
      exact own.onTaskSelf_congr fun _ => own.checkSigTev
    | tdRefTsk | tdInfTsk | tdDmiTsk | tdRefTex =>
      simp only [SelfCall.exec, tdRefTsk, tdInfTsk, tdDmiTsk, tdRefTex]
      exact own.onTaskSelf_congr fun _ => checkTd
    | rasTex texcd => exact own.rasTex texcd
    | chgPri | chgSlt | refTsk | infTsk | getRid | setRid | disWai | enaWai | dmiTsk | getTsp
    | setTsp | defTex
    | disTex | enaTex | refTex =>
      simp only [SelfCall.exec, tkChgPri, tkChgSlt, tkRefTsk, tkInfTsk, tkGetRid, tkSetRid,
        tkDisWai, tkEnaWai, tkDmiTsk, tkGetTsp, tkSetTsp, tkDefTex, tkDisTex, tkEnaTex,
        setTexMask, tkRefTex]
      exact own.onTaskSelf_congr fun _ => own.checkTsk

/-! ## A task of a domain -/

def oneOfEachEnv : SelfEnv where
  cfg := oneOfEach
  numProc := 1
  maxResid := 1
  reserveSstack _ := 0
  svc :=
    { lockSVC := fun _ _ s => s
      brkUnlock := fun _ _ _ s => s
      lock_id := fun _ _ _ => rfl }

/-- A domain is created, and a task in it. -/
def domOps : DomState :=
  (DomOp.creObj .tsk intCall (some 0x01000001) TA_PUBLIC E_OK).run oneOfEach
    ((DomOp.creDom none 0 E_OK).run oneOfEach (mpDomainInitialize oneOfEach))

theorem domOps_run (ok : DomState → DomOp → Prop) (hok : ∀ s op, ok s op) :
    DomRun oneOfEach ok domOps :=
  (DomRun.init.step _ (by trivial) (hok _ _)).step _ (by decide) (hok _ _)

/-- The task runs, with a wakeup request. -/
def domTask : TaskSys where
  dom := domOps
  kern :=
    { tcb := fun _ => ⟨.ready, 9, 9, 9, .slp, 0, false, 0, 1, 0, 0, [], true, false⟩
      objatr := fun _ => none
      queue := fun _ => []
      ceilpri := fun _ => 0
      mtxtsk := fun _ => none
      stamp := fun _ => 0
      clock := 0
      rdvatr := fun _ => 0
      log := [] }
  inf _ := ⟨0, 0, 1, 0, 0, false, 0, 0, 0, 0, 0, 0, 0, 0, [], TexBlock.dormant 0⟩
  ctxtsk _ := some 0
  space _ := (0, 0)

def domCtx : TaskCtx := ⟨0, 0, false, false, ⟨0, 0⟩⟩

theorem taskSelf_iff_wup :
    (SelfCall.chgPri 5).exec oneOfEachEnv domTask domCtx TSK_SELF =
        (SelfCall.chgPri 5).exec oneOfEachEnv domTask domCtx 0x01010001 ∧
      SelfCall.canWup.exec oneOfEachEnv domTask domCtx TSK_SELF ≠
        SelfCall.canWup.exec oneOfEachEnv domTask domCtx 0x01010001 := by
  have hid : (domTask.obj domCtx.tsk).id = 0x01010001 := by decide +kernel
  have hiff := taskSelf_iff oneOfEachEnv oneOfEach_fits domTask (fun _ _ => True)
    (domOps_run _ fun _ _ => trivial) domCtx rfl (by decide +kernel)
  rw [hid] at hiff
  refine ⟨(hiff _).mpr nofun, fun h => ?_⟩
  rcases (hiff _).mp h rfl with hd | hn
  · exact absurd hd (by decide)
  · cases hn

/-- The wakeup request of the task is there, but it cannot cancel it as `TSK_SELF`. -/
theorem canWup_self_refused :
    ¬∀ (e : SelfEnv) (s : TaskSys) (c : TaskCtx), e.cfg.Fits →
      DomRun e.cfg (fun _ _ => True) s.dom → c.indp = false → Live s.dom (.tsk, c.tsk) →
      ∀ call : SelfCall,
        call.exec e s c TSK_SELF = call.exec e s c (s.obj c.tsk).id := by
  intro hall
  have h := hall oneOfEachEnv domTask domCtx oneOfEach_fits (domOps_run _ fun _ _ => trivial) rfl
    (by decide +kernel) .canWup
  have hself : (SelfCall.canWup.exec oneOfEachEnv domTask domCtx TSK_SELF).2.1 = some E_NOEXS := by
    decide +kernel
  have hown : (SelfCall.canWup.exec oneOfEachEnv domTask domCtx (domTask.obj domCtx.tsk).id).2.1 =
      some 1 := by
    decide +kernel
  rw [h, hown] at hself
  exact absurd hself (by decide)

end SmpTKernel
