import SmpTKernel.SchedulerCalls

/-!
# Runs of the processors

Between two critical sections no change of the ready queue is pending and no task that waits is in
execution. If dispatching is only disabled where the scheduled task is in execution, the schedule is
the greedy selection at each of these times. The dispatcher alone then brings every processor to its
scheduled task.
-/

namespace SmpTKernel

open LinkRing Smp

variable {numProc NUM_TSKID prid : ℕ} {Q Q' : QHead → List Tsk} {s s' : Smp} {t : Tsk} {calm : Prop}
  {own : Option Tsk}

/-! ## The dispatcher -/

/-- Between two critical sections. -/
structure Smp.AtRest (numProc NUM_TSKID : ℕ) (calm : Prop) (s : Smp) : Prop where
  good : s.Good numProc NUM_TSKID calm
  chg : s.core.ready_queue.chg = false
  running : ∀ i < numProc, ∀ t, s.ctxtsk i = some t → ¬s.waiting t

/-- The schedule is the same, and the tasks may be put on the same processors. -/
theorem Current.place (h : Current numProc Q s) (hcore : s'.core = s.core)
    (hsched : s'.schedtsk = s.schedtsk)
    (hmay : ∀ t, mayRunOn numProc s.core s'.toCpus t = mayRunOn numProc s.core s.toCpus t) :
    Current numProc Q s' := by
  intro hchg
  rw [hcore] at hchg ⊢
  rw [hsched]
  exact (h hchg).congr fun t _ => hmay t

/-- Tasks come and go where dispatching is not disabled. -/
theorem mayRunOn_dispatching {c : Core} {u : Cpus} {o : Option Tsk}
    (hen : u.dispatch_disabled prid = DDS_ENABLE) (t : Tsk) :
    mayRunOn numProc c { u with ctxtsk := Function.update u.ctxtsk prid o } t =
      mayRunOn numProc c u t := by
  refine mayRunOn_congr rfl (fun _ _ => Iff.rfl) fun i _ hd => ?_
  have hi : i ≠ prid := by
    rintro rfl
    rw [hen] at hd
    exact absurd hd (by decide)
  change Function.update u.ctxtsk prid o i = some t ↔ _
  rw [Function.update_of_ne hi]

theorem intoDsp_ctxtsk (s : Smp) (prid : ℕ) :
    (s.intoDsp prid).ctxtsk = Function.update s.ctxtsk prid none := by
  unfold Smp.intoDsp
  split
  · next hnone => rw [← hnone, Function.update_eq_self]
  · dsimp only
    split_ifs <;> rfl

theorem intoDsp_frame (s : Smp) (prid : ℕ) : (s.intoDsp prid).toSchedule = s.toSchedule ∧
    (s.intoDsp prid).dispatch_disabled = s.dispatch_disabled := by
  unfold Smp.intoDsp
  split
  · exact ⟨rfl, rfl⟩
  · dsimp only
    split_ifs <;> exact ⟨rfl, rfl⟩

namespace SmpInv

variable (inv : SmpInv numProc NUM_TSKID Q s)
include inv

theorem intoDsp (hp : prid < numProc) (hen : s.dispatch_disabled prid = DDS_ENABLE) :
    SmpInv numProc NUM_TSKID Q (s.intoDsp prid) ∧ (s.intoDsp prid).state = s.state := by
  unfold Smp.intoDsp
  split
  · exact ⟨inv, rfl⟩
  · next t ht =>
    have hctx : ∀ i u, Function.update s.ctxtsk prid none i = some u → i ≠ prid ∧
        s.ctxtsk i = some u := fun i u hiu => by
      have hi : i ≠ prid := by
        rintro rfl
        rw [Function.update_self] at hiu
        cases hiu
      rw [Function.update_of_ne hi] at hiu
      exact ⟨hi, hiu⟩
    have hinj : ∀ i < numProc, ∀ j < numProc, ∀ u, Function.update s.ctxtsk prid none i = some u →
        Function.update s.ctxtsk prid none j = some u → i = j := fun i hi j hj u hiu hju =>
      inv.ctx_inj i hi j hj u (hctx i u hiu).2 (hctx j u hju).2
    have hdis : ∀ i < numProc, s.dispatch_disabled i ≠ DDS_ENABLE →
      s.dispatch_disabled i = DDS_DISABLE ∧
        ∃ u, Function.update s.ctxtsk prid none i = some u ∧ s.state u = .ready := fun i hi hd => by
      have hip : i ≠ prid := fun hip => hd (hip ▸ hen)
      obtain ⟨he, u, hiu, hu⟩ := inv.disabled i hi hd
      exact ⟨he, u, by rwa [Function.update_of_ne hip], hu⟩
    dsimp only
    split_ifs with hfree
    · -- the control block is returned; its task is in execution on no other processor
      have hstate : Function.update s.state t .nonexist = s.state := by
        rw [← inv.freed t hfree, Function.update_eq_self]
      have hsame : s.setState t .nonexist = s := by
        unfold Smp.setState
        rw [hstate]
      rw [hsame]
      refine ⟨⟨⟨inv.ready, inv.queued, inv.task, fun i hi u hiu => ?_, hinj, hdis, fun u hu => ?_⟩,
        inv.sched, inv.sched_inj⟩, rfl⟩
      · obtain ⟨hip, hiu⟩ := hctx i u hiu
        obtain ⟨hbit, hnon⟩ := inv.ctx i hi u hiu
        refine ⟨hbit, fun hu => ?_⟩
        have hut : u ≠ t := fun hut => hip (inv.ctx_inj i hi prid hp t (hut ▸ hiu) ht)
        exact (Function.update_of_ne hut _ _).trans (hnon hu)
      · change Function.update s.stkfree t false u = true at hu
        by_cases hut : u = t
        · rw [hut, Function.update_self] at hu
          cases hu
        · rw [Function.update_of_ne hut] at hu
          exact inv.freed u hu
    · exact ⟨⟨⟨inv.ready, inv.queued, inv.task, fun i hi u hiu => inv.ctx i hi u (hctx i u hiu).2,
        hinj, hdis, inv.freed⟩, inv.sched, inv.sched_inj⟩, rfl⟩

/-- The dispatcher takes the scheduled task. -/
theorem chkRestore (hnone : s.ctxtsk prid = none) (hp : prid < numProc)
    (ht : s.schedtsk prid = some t) (hout : s.isCtxtsk numProc t = false) :
    SmpInv numProc NUM_TSKID Q { s with ctxtsk := Function.update s.ctxtsk prid (some t) } := by
  have hout : ∀ i < numProc, s.ctxtsk i ≠ some t := fun i hi hit => by
    rw [isCtxtsk_iff.mpr ⟨i, hi, hit⟩] at hout
    cases hout
  have hctx : ∀ i u, Function.update s.ctxtsk prid (some t) i = some u → i = prid ∧ u = t ∨
      i ≠ prid ∧ s.ctxtsk i = some u :=
    fun i u hiu => by
      by_cases hi : i = prid
      · rw [hi, Function.update_self] at hiu
        exact .inl ⟨hi, (Option.some.inj hiu).symm⟩
      · rw [Function.update_of_ne hi] at hiu
        exact .inr ⟨hi, hiu⟩
  refine ⟨⟨inv.ready, inv.queued, inv.task, fun i hi u hiu => ?_, fun i hi j hj u hiu hju => ?_,
    fun i hi hd => ?_, inv.freed⟩, inv.sched, inv.sched_inj⟩
  · rcases hctx i u hiu with ⟨rfl, rfl⟩ | ⟨-, hiu⟩
    · obtain ⟨hready, hbit⟩ := inv.sched i hi u ht
      exact ⟨hbit, fun hf => absurd (hready.symm.trans hf) (by decide)⟩
    · exact inv.ctx i hi u hiu
  · rcases hctx i u hiu with ⟨rfl, rfl⟩ | ⟨-, hiu'⟩
    · rcases hctx j u hju with ⟨rfl, -⟩ | ⟨-, hju'⟩
      · rfl
      · exact absurd hju' (hout j hj)
    · rcases hctx j u hju with ⟨rfl, rfl⟩ | ⟨-, hju'⟩
      · exact absurd hiu' (hout i hi)
      · exact inv.ctx_inj i hi j hj u hiu' hju'
  · obtain ⟨he, u, hiu, hu⟩ := inv.disabled i hi hd
    have hip : i ≠ prid := by
      rintro rfl
      rw [hnone] at hiu
      cases hiu
    exact ⟨he, u, (Function.update_of_ne hip _ _).trans hiu, hu⟩

end SmpInv

namespace Smp.Good

variable (h : s.Good numProc NUM_TSKID calm)
include h

theorem enabled_of_none (hp : prid < numProc) (hnone : s.ctxtsk prid = none) :
    s.dispatch_disabled prid = DDS_ENABLE := by
  obtain ⟨Q, inv, -⟩ := h
  by_contra hd
  obtain ⟨-, t, ht, -⟩ := inv.disabled prid hp hd
  rw [hnone] at ht
  cases ht

/-- A task leaves its processor, where it alone might wait. -/
theorem intoDsp (hchg : s.core.ready_queue.chg = false) (hp : prid < numProc)
    (hen : s.dispatch_disabled prid = DDS_ENABLE)
    (hrun : ∀ i < numProc, i ≠ prid → ∀ t, s.ctxtsk i = some t → ¬s.waiting t) :
    (s.intoDsp prid).AtRest numProc NUM_TSKID calm := by
  obtain ⟨Q, inv, hcur⟩ := h
  obtain ⟨inv', hstate⟩ := inv.intoDsp hp hen
  have hctx := intoDsp_ctxtsk s prid
  obtain ⟨hsched, hdis⟩ := intoDsp_frame s prid
  have hcore := congrArg Schedule.core hsched
  have hcpus : (s.intoDsp prid).toCpus = ⟨Function.update s.ctxtsk prid none,
      s.dispatch_disabled⟩ := by
    rw [← hctx, ← hdis]
  refine ⟨⟨Q, inv', fun hcalm => (hcur hcalm).place hcore (congrArg Schedule.schedtsk hsched)
    fun t => ?_⟩, ?_, fun i hi t hit => ?_⟩
  · rw [hcpus]
    exact mayRunOn_dispatching hen t
  · rwa [hcore]
  · rw [hctx] at hit
    have hip : i ≠ prid := by
      rintro rfl
      rw [Function.update_self] at hit
      cases hit
    rw [Function.update_of_ne hip] at hit
    have := hrun i hi hip t hit
    unfold Smp.waiting at this ⊢
    rwa [hstate]

end Smp.Good

namespace Smp.AtRest

variable (h : s.AtRest numProc NUM_TSKID calm)
include h

theorem chkRestore (hp : prid < numProc) (hnone : s.ctxtsk prid = none) :
    (s.chkRestore numProc prid).AtRest numProc NUM_TSKID calm := by
  have hen := h.good.enabled_of_none hp hnone
  unfold Smp.chkRestore
  split
  · exact h
  · next t ht =>
    split_ifs with hctx
    · exact h
    · obtain ⟨Q, inv, hcur⟩ := h.good
      have inv' := inv.chkRestore hnone hp ht (by simpa using hctx)
      refine ⟨⟨Q, inv', fun hcalm => (hcur hcalm).place rfl rfl fun t =>
        mayRunOn_dispatching hen t⟩, h.chg, fun i hi u hiu => ?_⟩
      change Function.update s.ctxtsk prid (some t) i = some u at hiu
      by_cases hip : i = prid
      · rw [hip, Function.update_self] at hiu
        obtain rfl := Option.some.inj hiu
        have hready := (inv.sched prid hp t ht).1
        rintro (hw | hw)
        · exact absurd (hready.symm.trans hw) (by decide)
        · exact absurd (hready.symm.trans hw) (by decide)
      · rw [Function.update_of_ne hip] at hiu
        exact h.running i hi u hiu

end Smp.AtRest

/-! ## The end of a critical section -/

namespace Smp.Good

variable (h : s.Good numProc NUM_TSKID calm)
include h

theorem endCriticalForce (hn : numProc ≤ MAX_PROC) (hp : prid < numProc)
    (hen : s.dispatch_disabled prid = DDS_ENABLE)
    (hrun : ∀ i < numProc, i ≠ prid → ∀ t, s.ctxtsk i = some t → ¬s.waiting t) :
    ∃ s', s.endCriticalForce numProc NUM_TSKID prid = some s' ∧
      s'.AtRest numProc NUM_TSKID calm := by
  obtain ⟨s₁, hcall, h₁, hchg, hstate, hcpus⟩ := h.updateSchedtsk hn
  unfold Smp.endCriticalForce
  rw [hcall]
  refine ⟨_, rfl, h₁.intoDsp hchg hp (by rw [hcpus]; exact hen) fun i hi hip t hit => ?_⟩
  rw [hcpus] at hit
  unfold Smp.waiting
  rw [hstate]
  exact hrun i hi hip t hit

/-- A task that waits leaves its processor here. -/
theorem endCriticalSection (hn : numProc ≤ MAX_PROC) (hp : prid < numProc) (di : Bool)
    (hrun : ∀ i < numProc, i ≠ prid → ∀ t, s.ctxtsk i = some t → ¬s.waiting t)
    (hdi : di = true → ∀ t, s.ctxtsk prid = some t → ¬s.waiting t) :
    ∃ s', s.endCriticalSection numProc NUM_TSKID prid di = some s' ∧
      s'.AtRest numProc NUM_TSKID calm := by
  obtain ⟨s₁, hcall, h₁, hchg, hstate, hcpus⟩ := h.updateSchedtsk hn
  have hwait : ∀ t, s₁.waiting t ↔ s.waiting t := fun t => by
    unfold Smp.waiting
    rw [hstate]
  have hrun₁ : ∀ i < numProc, i ≠ prid → ∀ t, s₁.ctxtsk i = some t → ¬s₁.waiting t :=
    fun i hi hip t hit hw => by
    rw [hcpus] at hit
    exact hrun i hi hip t hit ((hwait t).mp hw)
  unfold Smp.endCriticalSection
  rw [hcall, Option.map_some]
  refine ⟨_, rfl, ?_⟩
  split_ifs with hdsp
  · have hchk : s₁.dispatch_disabled prid = DDS_ENABLE ∧ _ := of_decide_eq_true hdsp.2
    exact h₁.intoDsp hchg hp hchk.1 hrun₁
  · refine ⟨h₁, hchg, fun i hi t hit hw => ?_⟩
    by_cases hip : i = prid
    · subst hip
      cases di with
      | true =>
        rw [hcpus] at hit
        exact hdi rfl t hit ((hwait t).mp hw)
      | false =>
        -- a waiting task is not scheduled, and dispatching is not disabled for it
        obtain ⟨Q, inv, -⟩ := h₁
        have hready : s₁.state t ≠ .ready := by
          rcases hw with hw | hw <;> rw [hw] <;> decide
        refine hdsp ⟨by decide, decide_eq_true ⟨inv.enabled_of_ctx hready hi hit, fun he =>
          hready ?_⟩⟩
        exact (inv.sched i hi t (he.symm.trans hit)).1
    · exact hrun₁ i hi hip t hit hw

/-- The task in execution ends. -/
theorem endSelf (hn : numProc ≤ MAX_PROC) (hp : prid < numProc) (ht : s.ctxtsk prid = some t)
    (halive : s.state t ≠ .nonexist) (delete : Bool) :
    ∃ s' st, s.endSelf numProc NUM_TSKID prid delete = some s' ∧ s'.Good numProc NUM_TSKID calm ∧
      s'.ctxtsk = s.ctxtsk ∧ s'.dispatch_disabled prid = DDS_ENABLE ∧
        s'.state = (s.setState t st).state := by
  obtain ⟨Q, inv, hcur⟩ := h
  obtain ⟨s₁, hcall, h₁, hctx, hdis, hstate⟩ := inv.enable_ends hn halive hcur hp ht
  have hdormant : s₁.state t = .dormant := by rw [hstate, setState_self]
  have hen : s₁.dispatch_disabled prid = DDS_ENABLE := by
    rw [hdis]
    exact Function.update_self ..
  have hstate₁ (st : TaskState) : Function.update s₁.state t st = (s.setState t st).state := by
    rw [hstate]
    exact Function.update_idem ..
  unfold Smp.endSelf
  rw [ht]
  dsimp only
  cases delete with
  | false =>
    exact ⟨_, .dormant, map_makeDormant hcall, h₁.makeDormant (by rw [hdormant]; decide)
      (by rw [hdormant]; decide), hctx, hen, hstate₁ .dormant⟩
  | true =>
    obtain ⟨s₂, hter, rfl⟩ := Option.map_eq_some_iff.mp hcall
    rw [hter]
    refine ⟨_, .nonexist, rfl, ?_, hctx, hen, ?_⟩
    · have hself : ∀ x, Function.update s₂.state t x t = x := fun x => Function.update_self ..
      have hfree : Function.update s₂.stkfree t true t = true := Function.update_self ..
      refine h₁.alters (t := t) ⟨rfl, rfl, fun _ _ => rfl, rfl, rfl, fun u hu => ?_, fun _ _ =>
        rfl, fun u hu => ?_⟩ ?_ ?_ ?_
        (fun i hi hit => ⟨rfl, fun _ => hfree⟩) fun _ => hself _
      · exact (Function.update_of_ne hu _ _).trans (setState_of_ne s₂ _ hu).symm
      · exact Function.update_of_ne hu _ _
      · rw [hdormant]
        decide
      · change Function.update s₂.state t .nonexist t ≠ .ready
        rw [hself]
        decide
      · exact fun hf => absurd (hself .nonexist) hf
    · change Function.update s₂.state t .nonexist = _
      rw [← hstate₁ .nonexist]
      exact (Function.update_idem ..).symm

end Smp.Good

namespace Smp.AtRest

variable (h : s.AtRest numProc NUM_TSKID calm)
include h

/-- The end of a task, the calls for those that it kept waiting, and the dispatcher. -/
theorem endSelf (hn : numProc ≤ MAX_PROC) (hp : prid < numProc) (ht : s.ctxtsk prid ≠ none)
    (hforced : ¬s.forced prid) (delete : Bool) (calls : List SchedCall)
    (hfit : ∀ s' ∈ s.endSelf numProc NUM_TSKID prid delete, SchedCall.FitAll numProc NUM_TSKID prid
      calls s') :
    ∃ s', ((s.endSelf numProc NUM_TSKID prid delete).bind (SchedCall.execAll numProc NUM_TSKID prid
      calls)).bind
      (Smp.endCriticalForce numProc NUM_TSKID prid) = some s' ∧
      s'.AtRest numProc NUM_TSKID calm := by
  obtain ⟨t, ht⟩ := Option.ne_none_iff_exists'.mp ht
  have halive : s.state t ≠ .nonexist := fun hf => hforced (by
    unfold Smp.forced
    rw [ht, Option.any_some]
    exact decide_eq_true (.inr hf))
  obtain ⟨s₁, st, hend, h₁, hctx, hen, hstate⟩ := h.good.endSelf hn hp ht halive delete
  obtain ⟨s₂, hcalls, h₂, hstays⟩ :=
    SchedCall.execAll_good (some t) hn hp calls h₁ (hfit s₁ hend) fun _ => by
    rw [hctx, ht]
  have hout : ∀ i < numProc, i ≠ prid → ∀ u, s₂.ctxtsk i = some u → u ≠ t :=
    fun i hi hip u hiu hut => by
    obtain ⟨Q, inv, -⟩ := h.good
    rw [hstays.ctxtsk, hctx, hut] at hiu
    exact hip (inv.ctx_inj i hi prid hp t hiu ht)
  obtain ⟨s₃, hforce, h₃⟩ :=
    h₂.endCriticalForce hn hp (hstays.enabled prid hen) fun i hi hip u hiu hw => by
    have hut := hout i hi hip u hiu
    rw [hstays.ctxtsk, hctx] at hiu
    rcases hstays.waits u hw with hw | hw
    · unfold Smp.waiting at hw
      rw [hstate, setState_of_ne _ _ hut] at hw
      exact h.running i hi u hiu hw
    · exact hut (Option.some.inj hw).symm
  exact ⟨s₃, by rw [hend, Option.bind_some, hcalls, Option.bind_some, hforce], h₃⟩

theorem criticalSection (hn : numProc ≤ MAX_PROC) (hp : prid < numProc) (calls : List SchedCall)
    {di : Bool} (hfit : SchedCall.FitAll numProc NUM_TSKID prid calls s)
    (hdi : di = true → .makeWait ∉ calls) :
    ∃ s', (SchedCall.execAll numProc NUM_TSKID prid calls s).bind (Smp.endCriticalSection numProc
      NUM_TSKID prid di) =
      some s' ∧ s'.AtRest numProc NUM_TSKID calm := by
  -- who waits does so on its own processor, and not with interrupts disabled
  obtain ⟨s₁, hcalls, h₁, hstays⟩ :=
    SchedCall.execAll_good (if di then none else s.ctxtsk prid) hn hp calls h.good
    hfit fun hw => if_neg fun hd => hdi hd hw
  obtain ⟨s₂, hend, h₂⟩ := h₁.endCriticalSection hn hp di
    (fun i hi hip t hit hw => by
      rw [hstays.ctxtsk] at hit
      rcases hstays.waits t hw with hw | hw
      · exact h.running i hi t hit hw
      · split_ifs at hw
        obtain ⟨Q, inv, -⟩ := h.good
        exact hip (inv.ctx_inj i hi prid hp t hit hw))
    fun hd t hit hw => by
      rw [hstays.ctxtsk] at hit
      rcases hstays.waits t hw with hw | hw
      · exact h.running prid hp t hit hw
      · rw [if_pos hd] at hw
        cases hw
  exact ⟨s₂, by rw [hcalls, Option.bind_some, hend], h₂⟩

end Smp.AtRest

/-! ## Dispatching disabled and enabled -/

/-- A task in execution that calls is ready, or suspended. -/
theorem Smp.AtRest.ready (h : s.AtRest numProc NUM_TSKID calm) (hp : prid < numProc)
    (ht : s.ctxtsk prid = some t) (hforced : ¬s.forced prid)
    (hsus : ¬(s.state t = .suspend ∨ s.state t = .waitsus)) :
    s.state t = .ready := by
  have hrun := h.running prid hp t ht
  have hdead : ¬(s.state t = .dormant ∨ s.state t = .nonexist) := fun hd => hforced (by
    unfold Smp.forced
    rw [ht, Option.any_some]
    exact decide_eq_true hd)
  unfold Smp.waiting at hrun
  cases hst : s.state t <;> simp_all

/-- Where a task is in execution, dispatching is disabled for it. -/
theorem SmpInv.disable (inv : SmpInv numProc NUM_TSKID Q s) (ht : s.ctxtsk prid = some t)
    (hready : s.state t = .ready) :
    SmpInv numProc NUM_TSKID Q
      { s with dispatch_disabled := Function.update s.dispatch_disabled prid DDS_DISABLE } := by
  refine ⟨⟨inv.ready, inv.queued, inv.task, inv.ctx, inv.ctx_inj, fun i hi hd => ?_, inv.freed⟩,
    inv.sched, inv.sched_inj⟩
  change Function.update s.dispatch_disabled prid DDS_DISABLE i ≠ DDS_ENABLE at hd
  change Function.update s.dispatch_disabled prid DDS_DISABLE i = DDS_DISABLE ∧ _
  by_cases hip : i = prid
  · rw [hip, Function.update_self]
    exact ⟨rfl, t, ht, hready⟩
  · rw [Function.update_of_ne hip] at hd ⊢
    exact inv.disabled i hi hd

/-- The schedule stays current where the scheduled task is in execution. -/
theorem Current.disable (h : Current numProc Q s) (inv : SmpInv numProc NUM_TSKID Q s)
    (hp : prid < numProc) (ht : s.ctxtsk prid = some t) (hsched : s.schedtsk prid = some t) :
    Current numProc Q { s with
      dispatch_disabled := Function.update s.dispatch_disabled prid DDS_DISABLE } := by
  intro hchg
  let u : Cpus := ⟨s.ctxtsk, Function.update s.dispatch_disabled prid DDS_DISABLE⟩
  have hdis : ∀ i ≠ prid, u.dispatch_disabled i = s.dispatch_disabled i :=
    fun i hi => Function.update_of_ne hi _ _
  have hself : u.dispatch_disabled prid = DDS_DISABLE := Function.update_self ..
  have hpin : pinnedOn numProc u t = {prid} :=
    pinnedOn_eq (c := s.core) (fun i hi hit _ => ⟨(inv.ctx i hi t hit).1, fun j hj hjt =>
      inv.ctx_inj j hj i hi t hjt hit⟩)
      (mem_pinnedOn.mpr ⟨hp, ht, hself.ge⟩)
  have hother {v : Tsk} (hv : v ≠ t) : pinnedOn numProc u v = pinnedOn numProc s.toCpus v := by
    ext i
    rw [mem_pinnedOn, mem_pinnedOn]
    refine and_congr_right fun _ => and_congr_right fun hi => ?_
    have hip : i ≠ prid := by
      rintro rfl
      exact hv (Option.some.inj (hi.symm.trans ht))
    rw [hdis i hip]
  refine (h hchg).restrict (fun v _ i hi => ?_) fun i hi v hv => ?_
  · change i ∈ mayRunOn numProc s.core u v at hi
    by_cases hvt : v = t
    · subst hvt
      unfold mayRunOn at hi
      rw [hpin, if_pos (Finset.singleton_nonempty prid)] at hi
      exact ((h hchg).sound hp hsched).2.1 |> (Finset.mem_singleton.mp hi ▸ ·)
    · unfold mayRunOn at hi ⊢
      rw [hother hvt] at hi
      split_ifs at hi ⊢ with hne
      · exact hi
      · obtain ⟨hlt, hbit, hd⟩ := Finset.mem_filter.mp hi
        refine Finset.mem_filter.mpr ⟨hlt, hbit, ?_⟩
        by_cases hip : i = prid
        · rw [hip, hself] at hd
          exact absurd hd (Nat.lt_irrefl _)
        · rwa [hdis i hip] at hd
  · change i ∈ mayRunOn numProc s.core u v
    by_cases hvt : v = t
    · subst hvt
      unfold mayRunOn
      rw [hpin, if_pos (Finset.singleton_nonempty prid)]
      exact Finset.mem_singleton.mpr (inv.sched_inj i hi prid hp v hv hsched)
    · have hip : i ≠ prid := by
        rintro rfl
        exact hvt (Option.some.inj (hv.symm.trans hsched))
      have hmay := ((h hchg).sound hi hv).2.1
      unfold mayRunOn at hmay ⊢
      rw [hother hvt]
      split_ifs at hmay ⊢ with hne
      · exact hmay
      · obtain ⟨hlt, hbit, hd⟩ := Finset.mem_filter.mp hmay
        exact Finset.mem_filter.mpr ⟨hlt, hbit, by rwa [hdis i hip]⟩

namespace Smp.AtRest

variable (h : s.AtRest numProc NUM_TSKID calm)
include h

theorem disDsp (hp : prid < numProc) (hforced : ¬s.forced prid)
    (hcalm : calm → s.ctxtsk prid = s.schedtsk prid) :
    (s.tkDisDsp prid).AtRest numProc NUM_TSKID calm := by
  unfold Smp.tkDisDsp
  split
  · exact h
  · next t ht =>
    split_ifs with hsus
    · exact h
    · obtain ⟨Q, inv, hcur⟩ := h.good
      exact ⟨⟨Q, inv.disable ht (h.ready hp ht hforced hsus), fun hc =>
        (hcur hc).disable inv hp ht ((hcalm hc).symm.trans ht)⟩, h.chg, h.running⟩

theorem enaDsp (hn : numProc ≤ MAX_PROC) (hp : prid < numProc) (di : Bool) :
    ∃ s', s.tkEnaDsp numProc NUM_TSKID prid di = some s' ∧ s'.AtRest numProc NUM_TSKID calm := by
  obtain ⟨Q, inv, -⟩ := h.good
  obtain ⟨tcb, hcall, inv', hcur⟩ := (inv.enable prid).toSmpBase.readyQueueTop hn
  have hgood : Smp.Good numProc NUM_TSKID calm _ := ⟨Q, inv', fun _ => hcur⟩
  obtain ⟨s', hend, h'⟩ :=
    hgood.endCriticalSection hn hp di (fun i hi _ t hit => h.running i hi t hit)
    fun _ t hit => h.running prid hp t hit
  refine ⟨s', ?_, h'⟩
  unfold Smp.tkEnaDsp
  dsimp only
  rw [hcall]
  exact hend

end Smp.AtRest

/-! ## Creation and deletion -/

/-- The mask of a new task names processors that there are. -/
theorem maskOk_create (hn : numProc ≤ MAX_PROC) (h0 : 0 < numProc) {c : Core} {tskatr assprc : ℕ}
    (hatr : (c.tcb t).tskatr = tskatr)
    (hasp : (c.tcb t).assprc = if tskatr &&& TA_ASSPRC ≠ 0 then assprc else ALL_CORE_BIT numProc)
    (hlt : assprc < 2 ^ 32) (hok : ¬(tskatr &&& TA_ASSPRC ≠ 0 ∧
      (assprc = 0 ∨ assprc &&& (0xFFFFFFFF ^^^ ALL_CORE_BIT numProc) ≠ 0))) :
    MaskOk numProc c t := by
  unfold MaskOk SmpTKernel.askedBits
  rw [hatr, hasp, le_ALL_CORE_BIT hn]
  by_cases hset : tskatr &&& TA_ASSPRC = 0
  · rw [if_pos hset, ALL_CORE_BIT_eq hn]
    have := Nat.one_lt_two_pow h0.ne'
    omega
  · rw [if_neg hset, if_pos hset]
    obtain ⟨hne, hbits⟩ := not_or.mp (not_and.mp hok hset)
    refine ⟨hne, Nat.lt_pow_two_of_testBit assprc fun i hi => ?_⟩
    by_cases hi32 : i < 32
    · -- a bit beyond the processors would be refused
      have hand := congrArg (fun b => b.testBit i) (not_not.mp hbits)
      have hall : (0xFFFFFFFF : ℕ).testBit i = true := by
        change (2 ^ 32 - 1).testBit i = true
        rw [Nat.testBit_two_pow_sub_one]
        exact decide_eq_true hi32
      simpa [Nat.testBit_and, Nat.testBit_xor, testBit_ALL_CORE_BIT hn, hall, not_lt.mpr hi]
        using hand
    · exact Nat.testBit_lt_two_pow (lt_of_lt_of_le hlt (Nat.pow_le_pow_right (by decide)
        (not_lt.mp hi32)))

namespace Smp.AtRest

variable (h : s.AtRest numProc NUM_TSKID calm)
include h

/-- The control block is free, and its task is in execution nowhere. -/
theorem alters (ha : Alters t s s') (hstate : s.state t = .nonexist ∨ s.state t = .dormant)
    (hstate' : s'.state t = .nonexist ∨ s'.state t = .dormant)
    (task : s'.state t ≠ .nonexist → s'.TaskOk numProc NUM_TSKID t)
    (mask : ∀ i < numProc, s.ctxtsk i = some t →
      askedBits numProc s'.core t = askedBits numProc s.core t ∧
      (s'.state t = .nonexist → s'.stkfree t = true))
    (freed : s'.stkfree t = true → s'.state t = .nonexist) :
    s'.AtRest numProc NUM_TSKID calm := by
  refine ⟨h.good.alters ha ?_ ?_ task mask freed, ?_, fun i hi u hiu => ?_⟩
  · rcases hstate with hst | hst <;> rw [hst] <;> decide
  · rcases hstate' with hst | hst <;> rw [hst] <;> decide
  · rw [ha.ready_queue]
    exact h.chg
  · rw [ha.cpus] at hiu
    have hrun := h.running i hi u hiu
    unfold Smp.waiting at hrun ⊢
    by_cases hut : u = t
    · rcases hstate' with hst | hst <;> rw [hut, hst] <;> decide
    · rwa [ha.state u hut]

theorem creTsk (hn : numProc ≤ MAX_PROC) (h0 : 0 < numProc) (hlt : t < NUM_TSKID)
    {tskatr assprc itskpri : ℕ} (hasp : assprc < 2 ^ 32) :
    (s.tkCreTsk numProc t tskatr assprc itskpri).AtRest numProc NUM_TSKID calm := by
  unfold Smp.tkCreTsk
  by_cases hmask : tskatr &&& TA_ASSPRC ≠ 0 ∧
      (assprc = 0 ∨ assprc &&& (0xFFFFFFFF ^^^ ALL_CORE_BIT numProc) ≠ 0)
  · rw [if_pos hmask]
    exact h
  · rw [if_neg hmask]
    by_cases hpri : ¬chkPri itskpri
    · rw [if_pos hpri]
      exact h
    · rw [if_neg hpri]
      by_cases hused : s.state t ≠ .nonexist ∨ s.stkfree t
      · rw [if_pos hused]
        exact h
      · rw [if_neg hused]
        obtain ⟨hfree, hstk⟩ := not_or.mp hused
        have hfree := not_not.mp hfree
        have hout : ∀ i < numProc, s.ctxtsk i ≠ some t := fun i hi hit => by
          obtain ⟨Q, inv, -⟩ := h.good
          exact hstk ((inv.ctx i hi t hit).2 hfree)
        have hchk : 1 ≤ (itskpri : ℤ) ∧ (itskpri : ℤ) ≤ NUM_PRI :=
          of_decide_eq_true (not_not.mp hpri)
        have hp : itskpri - 1 < NUM_PRI := by omega
        let f : Tcb → Tcb := fun c =>
          { c with tskatr := tskatr, assprc := if tskatr &&& TA_ASSPRC ≠ 0 then
            assprc else ALL_CORE_BIT numProc }
        let s₁ : Smp := { s with ipriority := Function.update s.ipriority t (itskpri - 1) }
        change ((s₁.setTcb t f).makeDormant t).AtRest numProc NUM_TSKID calm
        have hself : ((s₁.setTcb t f).makeDormant t).core.tcb t = { f (s.core.tcb t) with
            priority := itskpri - 1, klockwait := false, klocked := false } := by
          change Function.update (Function.update s.core.tcb t (f (s.core.tcb t))) t _ t = _
          rw [Function.update_self]
          change { (Function.update s.core.tcb t (f (s.core.tcb t)) t) with
            priority := Function.update s.ipriority t (itskpri - 1) t, klockwait :=
              false, klocked := false } = _
          rw [Function.update_self, Function.update_self]
        refine h.alters (t := t) ⟨rfl, rfl, fun u hu => ?_, rfl, rfl, fun u hu => ?_,
          fun u hu => ?_, fun u hu => ?_⟩
          (.inl hfree) (.inr (Function.update_self ..)) (fun _ => ⟨hlt, ?_, ?_, ?_, ?_⟩)
          (fun i hi hit => absurd hit (hout i hi)) fun hf => ?_
        · exact (Function.update_of_ne hu _ _).trans (Function.update_of_ne hu _ _)
        · exact Function.update_of_ne hu _ _
        · exact Function.update_of_ne hu _ _
        · exact Function.update_of_ne hu _ _
        · exact maskOk_create hn h0 (congrArg Tcb.tskatr hself) (congrArg Tcb.assprc hself)
            hasp hmask
        · rwa [hself]
        · change Function.update s.ipriority t (itskpri - 1) t < NUM_PRI
          rwa [Function.update_self]
        · rw [hself]
        · have hno : ((s₁.setTcb t f).makeDormant t).stkfree t = false := Function.update_self ..
          rw [hno] at hf
          cases hf

theorem delTsk : (s.tkDelTsk numProc t).AtRest numProc NUM_TSKID calm := by
  have hself : (s.setState t .nonexist).state t = .nonexist := setState_self ..
  unfold Smp.tkDelTsk
  split_ifs with hdor hctx
  · exact h
  · have hfree : Function.update s.stkfree t true t = true := Function.update_self ..
    exact h.alters (t := t) ⟨rfl, rfl, fun _ _ => rfl, rfl, rfl, fun u hu => setState_of_ne s _ hu,
      fun _ _ => rfl, fun u hu => Function.update_of_ne hu _ _⟩ (.inr (not_not.mp hdor)) (.inl
      hself) (fun hf =>
        absurd hself hf)
      (fun i hi hit => ⟨rfl, fun _ => hfree⟩) fun _ => hself
  · exact h.alters (t := t) ⟨rfl, rfl, fun _ _ => rfl, rfl, rfl, fun u hu => setState_of_ne s _ hu,
      fun _ _ => rfl, fun _ _ => rfl⟩ (.inr (not_not.mp hdor)) (.inl hself) (fun hf =>
        absurd hself hf)
      (fun i hi hit => absurd (isCtxtsk_iff.mpr ⟨i, hi, hit⟩) hctx) fun _ => hself

/-- The time slice of a task plays no part between critical sections. -/
theorem chgSlt (slicetime : ℕ) : (s.tkChgSlt t slicetime).AtRest numProc NUM_TSKID calm := by
  unfold Smp.tkChgSlt
  split_ifs with hnon
  · exact h
  · obtain ⟨Q, inv, hcur⟩ := h.good
    exact ⟨⟨Q, ⟨⟨inv.ready, inv.queued, inv.task, inv.ctx, inv.ctx_inj, inv.disabled, inv.freed⟩,
      inv.sched, inv.sched_inj⟩, hcur⟩, h.chg, h.running⟩

end Smp.AtRest

/-! ## Runs -/

/-- Dispatching is only disabled where the scheduled task is in execution. -/
def SmpOp.Calm (s : Smp) : SmpOp → Prop
  | disDsp prid => s.ctxtsk prid = s.schedtsk prid
  | _ => True

/-- The states between critical sections, in the runs from the start; in the `calm` ones dispatching
is only disabled where the scheduled task is in execution. -/
inductive SmpRun (numProc NUM_TSKID : ℕ) (calm : Prop) : Smp → Prop
  | start (c : Core) (sl : Slices) : SmpRun numProc NUM_TSKID calm (smpStart c sl)
  | step {s s' : Smp} (op : SmpOp) : SmpRun numProc NUM_TSKID calm s → op.Fits numProc NUM_TSKID s →
      (calm → op.Calm s) → op.exec numProc NUM_TSKID s = some s' → SmpRun numProc NUM_TSKID calm s'

theorem smpStart_atRest (hn : numProc ≤ MAX_PROC) (c : Core) (sl : Slices) :
    (smpStart c sl).AtRest numProc NUM_TSKID calm := by
  have hempty : ordered (rdyQ fun _ => []) = [] := List.flatMap_eq_nil_iff.mpr fun _ _ => rfl
  have hctx : ∀ i t, (smpStart c sl).ctxtsk i ≠ some t := fun i t => Option.some_ne_none t ∘ Eq.symm
  have hsched : ∀ i t, (smpStart c sl).schedtsk i ≠ some t := hctx
  have hstate : ∀ t, (smpStart c sl).state t = .nonexist := fun _ => rfl
  have inv : SmpInv numProc NUM_TSKID (fun _ => []) (smpStart c sl) := by
    refine ⟨⟨ readyInv_initialize c hn, fun t p => ?_, fun t ht => absurd (hstate t) ht,
      fun i _ t hit => absurd hit (hctx i t), fun i _ j _ t hit => absurd hit (hctx i t),
      fun i _ hd => absurd rfl hd, fun t hf => ?_⟩,
        fun i _ t hit =>
      absurd hit (hsched i t), fun i _ j _ t hit => absurd hit (hsched i t)⟩
    · rw [hstate]
      simp
    · exact hstate t
  refine ⟨⟨fun _ => [], inv, fun _ _ => ?_⟩, rfl, fun i _ t hit => absurd hit (hctx i t)⟩
  rw [hempty]
  exact ⟨fun t => iff_of_false (fun ⟨i, _, hit⟩ => hsched i t hit) List.not_mem_nil, fun t ht =>
    absurd ht List.not_mem_nil⟩

/-- Every operation returns, and leads to such a state again. -/
theorem SmpOp.exec_atRest (hn : numProc ≤ MAX_PROC) (h0 : 0 < numProc)
    (h : s.AtRest numProc NUM_TSKID calm) (op : SmpOp) (hfit : op.Fits numProc NUM_TSKID s)
    (hcalm : calm → op.Calm s) :
    ∃ s', op.exec numProc NUM_TSKID s = some s' ∧ s'.AtRest numProc NUM_TSKID calm := by
  cases op with
  | criticalSection prid calls di => exact h.criticalSection hn hfit.1 calls hfit.2.1 hfit.2.2
  | extTsk prid calls => exact h.endSelf hn hfit.1 hfit.2.1 hfit.2.2.1 false calls hfit.2.2.2
  | exdTsk prid calls => exact h.endSelf hn hfit.1 hfit.2.1 hfit.2.2.1 true calls hfit.2.2.2
  | creTsk t tskatr assprc itskpri => exact ⟨_, rfl, h.creTsk hn h0 hfit.1 hfit.2⟩
  | delTsk t => exact ⟨_, rfl, h.delTsk⟩
  | chgSlt t slicetime => exact ⟨_, rfl, h.chgSlt slicetime⟩
  | disDsp prid => exact ⟨_, rfl, h.disDsp hfit.1 hfit.2.2 hcalm⟩
  | enaDsp prid di => exact h.enaDsp hn hfit.1 di
  | retInt prid =>
    refine ⟨_, rfl, ?_⟩
    split_ifs with hchk
    · have hen : s.dispatch_disabled prid = DDS_ENABLE ∧ _ := of_decide_eq_true hchk
      exact h.good.intoDsp h.chg hfit.1 hen.1 fun i hi _ => h.running i hi
    · exact h
  | forceDispatch prid =>
    obtain ⟨t, ht, hdead⟩ : ∃ t, s.ctxtsk prid = some t ∧ (s.state t = .dormant ∨
        s.state t = .nonexist) := by
      have hforced := hfit.2
      unfold Smp.forced at hforced
      cases hctx : s.ctxtsk prid with
      | none =>
        rw [hctx] at hforced
        cases hforced
      | some t =>
        rw [hctx, Option.any_some] at hforced
        exact ⟨t, rfl, of_decide_eq_true hforced⟩
    refine ⟨_, rfl, h.good.intoDsp h.chg hfit.1 ?_ fun i hi _ => h.running i hi⟩
    obtain ⟨Q, inv, -⟩ := h.good
    refine inv.enabled_of_ctx (fun hready => ?_) hfit.1 ht
    rw [hready] at hdead
    exact absurd hdead (by decide)
  | restore prid => exact ⟨_, rfl, h.chkRestore hfit.1 hfit.2⟩

theorem SmpRun.atRest (hn : numProc ≤ MAX_PROC) (h0 : 0 < numProc)
    (run : SmpRun numProc NUM_TSKID calm s) :
    s.AtRest numProc NUM_TSKID calm := by
  induction run with
  | start c sl => exact smpStart_atRest hn c sl
  | step op _ hfit hcalm hexec ih =>
    obtain ⟨s', hcall, h'⟩ := SmpOp.exec_atRest hn h0 ih op hfit hcalm
    exact Option.some.inj (hexec.symm.trans hcall) ▸ h'

theorem SmpRun.exec (hn : numProc ≤ MAX_PROC) (h0 : 0 < numProc)
    (run : SmpRun numProc NUM_TSKID calm s) (op : SmpOp) (hfit : op.Fits numProc NUM_TSKID s)
    (hcalm : calm → op.Calm s) :
    SmpRun numProc NUM_TSKID calm ((op.exec numProc NUM_TSKID s).getD s) := by
  obtain ⟨s', hcall, -⟩ := SmpOp.exec_atRest hn h0 (run.atRest hn h0) op hfit hcalm
  rw [hcall, Option.getD_some]
  exact run.step op hfit hcalm hcall

/-- Operations that can happen one after the other. -/
def SmpOp.FitAll (numProc NUM_TSKID : ℕ) (calm : Prop) : List SmpOp → Smp → Prop
  | [], _ => True
  | op :: ops, s => (op.Fits numProc NUM_TSKID s ∧ (calm → op.Calm s)) ∧
      FitAll numProc NUM_TSKID calm ops ((op.exec numProc NUM_TSKID s).getD s)

theorem SmpRun.execAll (hn : numProc ≤ MAX_PROC) (h0 : 0 < numProc)
    (run : SmpRun numProc NUM_TSKID calm s) (ops : List SmpOp)
    (hfit : SmpOp.FitAll numProc NUM_TSKID calm ops s) :
    SmpRun numProc NUM_TSKID calm (ops.foldl (fun s op => (op.exec numProc NUM_TSKID s).getD s)
      s) := by
  induction ops generalizing s with
  | nil => exact run
  | cons op ops ih => exact ih (run.exec hn h0 op hfit.1.1 hfit.1.2) hfit.2

/-- Two processors execute the tasks 1 and 2. -/
def movesBefore : Smp :=
  [.creTsk 1 0 0 2, .creTsk 2 0 0 3, .creTsk 3 TA_ASSPRC 1 1,
    .criticalSection 0 [.staTsk 1, .staTsk 2] false, .restore 0, .restore 1].foldl
      (fun s (op : SmpOp) => (op.exec 2 4 s).getD s) (smpStart idleCore ⟨10, fun _ => 0⟩)

/-- An interrupt starts the most urgent task 3, which asks for the first processor. -/
def moves : Smp :=
  ((SmpOp.criticalSection 0 [.staTsk 3] true).exec 2 4 movesBefore).getD movesBefore

/-- Two processors execute the tasks 1 and 2, which have time slices; the task 3 has their
priority. -/
def tickBefore : Smp :=
  [.creTsk 1 0 0 2, .creTsk 2 0 0 2, .creTsk 3 0 0 2, .creTsk 4 TA_ASSPRC 2 1,
    .criticalSection 0 [.staTsk 1, .staTsk 2, .staTsk 3] false, .restore 0, .restore 1, .chgSlt 1 5,
    .chgSlt 2 15].foldl
      (fun s (op : SmpOp) => (op.exec 2 5 s).getD s) (smpStart idleCore ⟨10, fun _ => 0⟩)

/-- The time slice of task 1 is over, and it goes behind task 3. -/
def tick : Smp :=
  ((SmpOp.criticalSection 0 [.timerSlices] true).exec 2 5 tickBefore).getD tickBefore

/-- An interrupt starts the most urgent task 4, which asks for the second processor. -/
def tickMoves : Smp := ((SmpOp.criticalSection 0 [.staTsk 4] true).exec 2 5 tick).getD tick

theorem tickBefore_run (calm : Prop) : SmpRun 2 5 calm tickBefore := by
  have hn : 2 ≤ MAX_PROC := by decide
  have h0 : 0 < 2 := by decide
  have start : SmpRun 2 5 calm (smpStart idleCore ⟨10, fun _ => 0⟩) :=
    .start idleCore ⟨10, fun _ => 0⟩
  have created :=
    (((start.exec hn h0 (.creTsk 1 0 0 2) ⟨by decide, by decide⟩ fun _ => trivial).exec hn h0
    (.creTsk 2 0 0 2) ⟨by decide, by decide⟩ fun _ => trivial).exec hn h0 (.creTsk 3 0 0 2)
    ⟨by decide, by decide⟩ fun _ => trivial).exec hn h0 (.creTsk 4 TA_ASSPRC 2 1) ⟨by decide, by
      decide⟩
    fun _ => trivial
  have started := created.exec hn h0 (.criticalSection 0 [.staTsk 1, .staTsk 2, .staTsk 3] false)
    ⟨by decide, ⟨trivial, fun _ _ => ⟨trivial, fun _ _ => ⟨trivial, fun _ _ => trivial⟩⟩⟩, by
      decide⟩
    fun _ => trivial
  exact (((started.exec hn h0 (.restore 0) ⟨by decide, by decide +kernel⟩ fun _ => trivial).exec hn
    h0 (.restore 1)
    ⟨by decide, by decide +kernel⟩ fun _ => trivial).exec hn h0 (.chgSlt 1 5)
      (by change 5 < 2 ^ 32; decide)
    fun _ => trivial).exec hn h0 (.chgSlt 2 15) (by change 15 < 2 ^ 32; decide) fun _ => trivial

theorem tickMoves_run (calm : Prop) : SmpRun 2 5 calm tickMoves := by
  have hn : 2 ≤ MAX_PROC := by decide
  have h0 : 0 < 2 := by decide
  have after : SmpRun 2 5 calm tick :=
    (tickBefore_run calm).exec hn h0 (.criticalSection 0 [.timerSlices] true)
    ⟨by decide, ⟨trivial, fun _ _ => trivial⟩, by decide⟩ fun _ => trivial
  exact after.exec hn h0 (.criticalSection 0 [.staTsk 4] true) ⟨by decide, ⟨trivial, fun _ _ =>
    trivial⟩, by decide⟩
    fun _ => trivial

/-! ## The tasks on the processors -/

/-- No task is on two processors or on one that it does not ask for, no task that waits is on any,
and the ready queue has the ready tasks, each in the queue of its priority. -/
structure Smp.Placed (numProc NUM_TSKID : ℕ) (s : Smp) : Prop where
  once : ∀ i < numProc, ∀ j < numProc, ∀ t, s.ctxtsk i = some t → s.ctxtsk j = some t → i = j
  asked : ∀ i < numProc, ∀ t, s.ctxtsk i = some t → hasBit (askedBits numProc s.core t) i
  running : ∀ i < numProc, ∀ t, s.ctxtsk i = some t → s.state t ≠ .wait ∧ s.state t ≠ .waitsus
  queued : ∃ Q, ReadyInv numProc IsRdy Q s.core ∧
    ∀ t p, t ∈ Q (.rdy p) ↔ s.state t = .ready ∧ (s.core.tcb t).priority = p
  /-- Dispatching is only disabled for a ready task. -/
  disabled : ∀ i < numProc, s.dispatch_disabled i ≠ DDS_ENABLE →
    ∃ t, s.ctxtsk i = some t ∧ s.state t = .ready
  /-- A control block is not used again while its task is in execution. -/
  owned : ∀ i < numProc, ∀ t tskatr assprc itskpri, s.ctxtsk i = some t →
    s.tkCreTsk numProc t tskatr assprc itskpri = s
  returns : ∀ op : SmpOp, op.Fits numProc NUM_TSKID s → ∃ s', op.exec numProc NUM_TSKID s = some s'

/-- **The processors.** In every order of calls, interrupts and dispatches. -/
theorem smpRun_placed (hn : numProc ≤ MAX_PROC) (h0 : 0 < numProc)
    (run : SmpRun numProc NUM_TSKID False s) :
    s.Placed numProc NUM_TSKID := by
  have h := run.atRest hn h0
  obtain ⟨Q, inv, -⟩ := h.good
  refine ⟨inv.ctx_inj, fun i hi t hit => (inv.ctx i hi t hit).1, fun i hi t hit =>
    not_or.mp (h.running i hi t hit), ⟨Q, inv.ready, inv.queued⟩, fun i hi hd =>
      (inv.disabled i hi hd).2,
    fun i hi t tskatr assprc itskpri hit => ?_, fun op hfit => ?_⟩
  · unfold Smp.tkCreTsk
    dsimp only
    rw [if_pos (c := s.state t ≠ .nonexist ∨ s.stkfree t = true), ite_self, ite_self]
    exact or_iff_not_imp_left.mpr fun hne => (inv.ctx i hi t hit).2 (not_not.mp hne)
  · obtain ⟨s', hcall, -⟩ := SmpOp.exec_atRest hn h0 h op hfit False.elim
    exact ⟨s', hcall⟩

/-- The tasks 1 and 2 are in execution, and all four are ready; the timer has put task 1 behind task
3. -/
theorem smpRun_placed_moves :
    tickMoves.Placed 2 5 ∧ tickMoves.ctxtsk 0 = some 1 ∧ tickMoves.ctxtsk 1 = some 2 ∧
    (tickBefore.core.que (.tsk 2)).next = .tsk 3 ∧ (tickMoves.core.que (.tsk 3)).next = .tsk 1 :=
  ⟨smpRun_placed (by decide) (by decide) (tickMoves_run False), by decide +kernel, by
    decide +kernel, by decide +kernel, by decide +kernel⟩

/-! ## The schedule -/

theorem Smp.AtRest.current (h : s.AtRest numProc NUM_TSKID True) :
    ∃ Q, SmpInv numProc NUM_TSKID Q s ∧
    GreedyAssigned numProc (mayRunOn numProc s.core s.toCpus) (ordered (rdyQ Q)) s.schedtsk := by
  obtain ⟨Q, inv, hcur⟩ := h.good
  exact ⟨Q, inv, hcur trivial h.chg⟩

/-- A processor leaves its task, or takes the scheduled one. -/
inductive Dispatch (numProc : ℕ) (s : Smp) : Smp → Prop
  | leave (i : ℕ) :
      i < numProc → s.ctxtsk i ≠ none → s.chkDsp i = true → Dispatch numProc s (s.intoDsp i)
  | take (i : ℕ) (t : Tsk) :
      i < numProc → s.ctxtsk i = none → s.schedtsk i = some t → s.isCtxtsk numProc t = false →
      Dispatch numProc s (s.chkRestore numProc i)

/-- A number of such steps. -/
inductive Dispatches (numProc : ℕ) : ℕ → Smp → Smp → Prop
  | refl (s : Smp) : Dispatches numProc 0 s s
  | step {n : ℕ} {s s' s'' : Smp} :
      Dispatches numProc n s s' → Dispatch numProc s' s'' → Dispatches numProc (n + 1) s s''

/-- The steps that the processor `i` is away from its scheduled task. -/
def Smp.away (s : Smp) (i : ℕ) : ℕ :=
  if s.ctxtsk i = s.schedtsk i then 0 else if s.ctxtsk i = none then 1 else 2

theorem Dispatch.frame (h : Dispatch numProc s s') : s'.schedtsk = s.schedtsk := by
  cases h with
  | leave i => exact congrArg Schedule.schedtsk (intoDsp_frame s i).1
  | take i t _ _ ht hctx =>
    unfold Smp.chkRestore
    rw [ht]
    dsimp only
    rw [if_neg (by simp [hctx])]

/-- Each step brings one processor nearer. -/
theorem Dispatch.away_lt (h : Dispatch numProc s s') :
    ∑ i ∈ Finset.range numProc, s'.away i < ∑ i ∈ Finset.range numProc, s.away i := by
  have hsched := h.frame
  suffices hstep : ∃ i < numProc, s'.away i < s.away i ∧ ∀ j ≠ i, s'.ctxtsk j = s.ctxtsk j by
    obtain ⟨i, hi, hlt, hsame⟩ := hstep
    refine Finset.sum_lt_sum (fun j _ => ?_) ⟨i, Finset.mem_range.mpr hi, hlt⟩
    by_cases hji : j = i
    · exact hji ▸ hlt.le
    · unfold Smp.away
      rw [hsame j hji, hsched]
  unfold Smp.away
  rw [hsched]
  cases h with
  | leave i hi hne hchk =>
    have hdsp : s.dispatch_disabled i = DDS_ENABLE ∧ s.ctxtsk i ≠ s.schedtsk i :=
      of_decide_eq_true hchk
    refine ⟨i, hi, ?_, fun j hji => ?_⟩
    · rw [intoDsp_ctxtsk, Function.update_self, if_neg hdsp.2, if_neg hne,
        if_pos (rfl : (none : Option Tsk) = none)]
      split_ifs <;> decide
    · rw [intoDsp_ctxtsk, Function.update_of_ne hji]
  | take i t hi hnone ht hctx =>
    have hcall : (s.chkRestore numProc i).ctxtsk = Function.update s.ctxtsk i (some t) := by
      unfold Smp.chkRestore
      rw [ht]
      dsimp only
      rw [if_neg (by simp [hctx])]
    refine ⟨i, hi, ?_, fun j hji => ?_⟩
    · rw [hcall, Function.update_self, if_pos ht.symm, hnone, ht]
      simp
    · rw [hcall, Function.update_of_ne hji]

/-- Where dispatching is disabled the task in execution is scheduled. -/
theorem SmpInv.pinned_scheduled (inv : SmpInv numProc NUM_TSKID Q s)
    (hcur : GreedyAssigned numProc (mayRunOn numProc s.core s.toCpus) (ordered (rdyQ Q)) s.schedtsk)
    {i : ℕ} (hi : i < numProc) (hd : s.dispatch_disabled i ≠ DDS_ENABLE) :
    s.ctxtsk i = s.schedtsk i := by
  obtain ⟨he, t, hit, hready⟩ := inv.disabled i hi hd
  have hpin : i ∈ pinnedOn numProc s.toCpus t := mem_pinnedOn.mpr ⟨hi, hit, he.ge⟩
  have hmay : mayRunOn numProc s.core s.toCpus t = {i} := by
    unfold mayRunOn
    rw [if_pos ⟨i, hpin⟩, pinnedOn_eq (inv.ctxOk t) hpin]
  rw [hit]
  by_contra hne
  have hnot : ∀ j < numProc, s.schedtsk j ≠ some t := fun j hj hjt => by
    have hmem := (hcur.sound hj hjt).2.1
    rw [hmay, Finset.mem_singleton] at hmem
    exact hne (hmem ▸ hjt.symm)
  obtain ⟨u, hu, hsub⟩ := hcur.ahead inv.ready.nodup_ordered (inv.mem_ordered.mpr hready) hnot
    (by rw [hmay]; exact Finset.mem_singleton_self i) hi
  -- nobody else may be put there
  have hmem := (hcur.sound hi hu).2.1
  unfold mayRunOn at hmem
  split_ifs at hmem with hpinned
  · have hut := (mem_pinnedOn.mp hmem).2.1
    exact hnot i hi (Option.some.inj (hit.symm.trans hut) ▸ hu)
  · have hlt : s.dispatch_disabled i < DDS_DISABLE := (Finset.mem_filter.mp hmem).2.2
    exact absurd (he ▸ hlt) (Nat.lt_irrefl _)

/-- A processor that is not where it should be can make a step, or another one is in its way and
can. -/
theorem Smp.AtRest.dispatch (h : s.AtRest numProc NUM_TSKID True) {i : ℕ} (hi : i < numProc)
    (hne : s.ctxtsk i ≠ s.schedtsk i) : ∃ s', Dispatch numProc s s' := by
  obtain ⟨Q, inv, hcur⟩ := h.current
  have hleave {j : ℕ} (hj : j < numProc) (hjn : s.ctxtsk j ≠ none)
      (hjne : s.ctxtsk j ≠ s.schedtsk j) :
      ∃ s', Dispatch numProc s s' := by
    refine ⟨_, .leave j hj hjn (decide_eq_true ⟨?_, hjne⟩)⟩
    by_contra hd
    exact hjne (inv.pinned_scheduled hcur hj hd)
  by_cases hnone : s.ctxtsk i = none
  · obtain ⟨t, ht⟩ := Option.ne_none_iff_exists'.mp fun hs => hne (hnone.trans hs.symm)
    cases hctx : s.isCtxtsk numProc t with
    | false => exact ⟨_, .take i t hi hnone ht hctx⟩
    | true =>
      obtain ⟨j, hj, hjt⟩ := isCtxtsk_iff.mp hctx
      refine hleave hj (by rw [hjt]; exact Option.some_ne_none t) fun he => hne ?_
      rw [inv.sched_inj i hi j hj t ht (he.symm.trans hjt)]
      exact he
  · exact hleave hi hnone hne

theorem Dispatch.run (run : SmpRun numProc NUM_TSKID calm s) (h : Dispatch numProc s s') :
    SmpRun numProc NUM_TSKID calm s' := by
  cases h with
  | leave i hi hne hchk =>
    exact run.step (.retInt i) ⟨hi, hne⟩ (fun _ => trivial) (congrArg some (if_pos hchk))
  | take i t hi hnone => exact run.step (.restore i) ⟨hi, hnone⟩ (fun _ => trivial) rfl

theorem Dispatches.run {n : ℕ} (h : Dispatches numProc n s s')
    (run : SmpRun numProc NUM_TSKID calm s) :
    SmpRun numProc NUM_TSKID calm s' ∧ s'.schedtsk = s.schedtsk ∧
      n + ∑ i ∈ Finset.range numProc, s'.away i ≤ ∑ i ∈ Finset.range numProc, s.away i := by
  induction h with
  | refl s => exact ⟨run, rfl, (Nat.zero_add _).le⟩
  | step _ hstep ih =>
    obtain ⟨run', hsched, hle⟩ := ih run
    have := hstep.away_lt
    exact ⟨hstep.run run', hstep.frame.trans hsched, by omega⟩

/-- **The dispatcher.** No processor is stuck: after at most two steps for each, and in whatever
order, they all have the tasks that were scheduled. -/
theorem dispatches_settle (hn : numProc ≤ MAX_PROC) (h0 : 0 < numProc) {n : ℕ}
    (run : SmpRun numProc NUM_TSKID True s) (h : Dispatches numProc n s s') :
    n ≤ 2 * numProc ∧ s'.schedtsk = s.schedtsk ∧
      ((¬∃ s'', Dispatch numProc s' s'') ↔ ∀ i < numProc, s'.ctxtsk i = s'.schedtsk i) := by
  obtain ⟨run', hsched, hle⟩ := h.run run
  have hfar : ∑ i ∈ Finset.range numProc, s.away i ≤ 2 * numProc := by
    have hsum := Finset.sum_le_card_nsmul (Finset.range numProc) s.away 2 fun i _ => by
      unfold Smp.away
      split_ifs <;> decide
    rw [Finset.card_range] at hsum
    exact hsum.trans (Nat.mul_comm numProc 2).le
  refine ⟨by omega, hsched, fun hstuck i hi => ?_, ?_⟩
  · by_contra hne
    exact hstuck ((run'.atRest hn h0).dispatch hi hne)
  · rintro hall ⟨s'', hstep⟩
    cases hstep with
    | leave i hi _ hchk =>
      have hdsp : _ ∧ s'.ctxtsk i ≠ s'.schedtsk i := of_decide_eq_true hchk
      exact hdsp.2 (hall i hi)
    | take i t hi hnone ht =>
      have he := hall i hi
      rw [hnone, ht] at he
      cases he

/-- Both processors leave their tasks; the task 2 has to be left by the second before the first
takes it. -/
def movesAfter : Smp := (((tickMoves.intoDsp 0).intoDsp 1).chkRestore 2 1).chkRestore 2 0

theorem dispatches_settle_moves : Dispatches 2 4 tickMoves movesAfter ∧
    (4 ≤ 2 * 2 ∧ movesAfter.schedtsk = tickMoves.schedtsk ∧
      ((¬∃ s'', Dispatch 2 movesAfter s'') ↔
        ∀ i < 2, movesAfter.ctxtsk i = movesAfter.schedtsk i)) ∧
    ∀ i < 2, movesAfter.ctxtsk i = movesAfter.schedtsk i := by
  have leaves : Dispatches 2 2 tickMoves ((tickMoves.intoDsp 0).intoDsp 1) :=
    ((Dispatches.refl tickMoves).step (.leave 0 (by decide) (by decide +kernel)
      (by decide +kernel))).step
      (.leave 1 (by decide) (by decide +kernel) (by decide +kernel))
  have takes : Dispatches 2 4 tickMoves movesAfter :=
    (leaves.step (.take 1 4 (by decide) (by decide +kernel) (by decide +kernel)
      (by decide +kernel))).step
      (.take 0 2 (by decide) (by decide +kernel) (by decide +kernel) (by decide +kernel))
  exact ⟨takes, dispatches_settle (by decide) (by decide) (tickMoves_run True) takes, by
    decide +kernel⟩

end SmpTKernel
