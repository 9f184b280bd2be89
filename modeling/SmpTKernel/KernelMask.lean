import SmpTKernel.KernelInv

/-!
# Disabled waits

`tk_dis_wai` writes the mask of the factors a task may not wait for; a wait for an object with
`TA_NODISWAI` is exempt, and `nodiswai` says so for the wait the task is in. The calls that make
another task wait for something else, in a rendezvous, test the mask of that task.
-/

namespace SmpTKernel

open Kern

variable {good : Prop} {x x' : Option Tsk} {s s' : Kern} {a b : Option Tsk × Kern} {t u : Tsk}
  {q : QueueId} {atr : ℕ}

/-- The attributes of the object that the task waits for, in a rendezvous those of the port it was
made through; 0 if the wait is for no object. -/
def Kern.waitedAtr (s : Kern) (t : Tsk) : ℕ :=
  match s.waitQueue t with
  | some q => (s.objatr (q.1.obj, q.2)).getD 0
  | none => if (s.tcb t).wspec = .rdv then s.rdvatr t else 0

/-- The task may wait for the factor it waits for, the object having these attributes. -/
structure TaskCB.MayWait (c : TaskCB) (atr : ℕ) : Prop where
  factor : c.wspec.tskwait &&& c.waitmask = 0 ∨ c.nodiswai
  nodiswai : c.nodiswai = true ↔ atr &&& TA_NODISWAI ≠ 0

/-- No task waits for what it is not to wait for. -/
def MaskRight (s : Kern) : Prop := ∀ t, (s.tcb t).state.isWait → (s.tcb t).MayWait (s.waitedAtr t)

def MaskInv (a : Option Tsk × Kern) : Prop :=
  ∀ t, Active a t → (a.2.tcb t).MayWait (a.2.waitedAtr t)

theorem waitedAtr_queue (h : s.waitQueue t = some q) :
    s.waitedAtr t = (s.objatr (q.1.obj, q.2)).getD 0 := by
  unfold waitedAtr
  rw [h]

theorem waitedAtr_rdv (h : (s.tcb t).wspec = .rdv) : s.waitedAtr t = s.rdvatr t := by
  unfold waitedAtr waitQueue
  rw [h]
  rfl

theorem waitedAtr_alone (h : (s.tcb t).wspec.kind = none) (hr : (s.tcb t).wspec ≠ .rdv) :
    s.waitedAtr t = 0 := by
  unfold waitedAtr
  rw [waitQueue_eq_none.mpr h]
  exact if_neg hr

theorem waitedAtr_congr (hw : (s'.tcb t).wspec = (s.tcb t).wspec)
    (hid : (s'.tcb t).wid = (s.tcb t).wid)
    (hobj : ∀ q, s.waitQueue t = some q → s'.objatr (q.1.obj, q.2) = s.objatr (q.1.obj, q.2))
    (hrdv : s'.rdvatr t = s.rdvatr t) : s'.waitedAtr t = s.waitedAtr t := by
  have hqueue : s'.waitQueue t = s.waitQueue t := waitQueue_congr hw hid
  cases hq : s.waitQueue t with
  | some q => rw [waitedAtr_queue hq, waitedAtr_queue (hqueue.trans hq), hobj q hq]
  | none =>
    unfold waitedAtr
    rw [hqueue, hq, hw, hrdv]

theorem mayWait_of_isDiswai {c : TaskCB} (h : isDiswai atr c.waitmask c.wspec.tskwait = false)
    (hn : c.nodiswai = true ↔ atr &&& TA_NODISWAI ≠ 0) : c.MayWait atr := by
  refine ⟨?_, hn⟩
  unfold isDiswai at h
  rw [decide_eq_false_iff_not, not_and_or, not_not, Nat.and_comm] at h
  exact h.imp_right hn.mpr

theorem MaskInv.frame (inv : MaskInv (x, s))
    (h : ∀ u, Active (x', s') u → (s'.tcb u).MayWait (s'.waitedAtr u) ∨
      Active (x, s) u ∧ (s'.tcb u).wspec = (s.tcb u).wspec ∧
        (s'.tcb u).nodiswai = (s.tcb u).nodiswai ∧
        (s'.tcb u).waitmask = (s.tcb u).waitmask ∧ s'.waitedAtr u = s.waitedAtr u) :
          MaskInv (x', s') := by
  intro u hu
  rcases h u hu with h | ⟨hold, hw, hn, hm, hatr⟩
  · exact h
  · obtain ⟨hfactor, hnodiswai⟩ := inv u hold
    change (s'.tcb u).MayWait (s'.waitedAtr u)
    rw [hatr]
    exact ⟨by rwa [hw, hm, hn], by rwa [hn]⟩

/-- A step that leaves the objects and the other tasks. -/
theorem MaskInv.one (inv : MaskInv (x, s)) (hobj : s'.objatr = s.objatr)
    (hother : ∀ u, u ≠ t → s'.tcb u = s.tcb u ∧ s'.rdvatr u = s.rdvatr u)
    (haway : ∀ u, u ≠ t → some u ≠ x' → some u ≠ x)
    (hself : Active (x', s') t → (s'.tcb t).MayWait (s'.waitedAtr t)) : MaskInv (x', s') := by
  refine inv.frame fun u hu => ?_
  by_cases hut : u = t
  · exact Or.inl (hut ▸ hself (hut ▸ hu))
  · obtain ⟨htcb, hrdv⟩ := hother u hut
    have hactive : Active (x, s) u := ⟨htcb ▸ hu.1, haway u hut hu.2⟩
    refine Or.inr ⟨hactive, by rw [htcb], by rw [htcb], by
      rw [htcb], waitedAtr_congr (by rw [htcb]) (by rw [htcb])
      (fun _ _ => by rw [hobj]) hrdv⟩

/-- A step that writes a field of a control block that has nothing to do with the wait. -/
theorem MaskInv.upd (inv : MaskInv (x, s)) {f : TaskCB → TaskCB}
    (hf : Active (x, s.upd t f) t → Active (x, s) t ∧ (f (s.tcb t)).wspec = (s.tcb t).wspec ∧
      (f (s.tcb t)).wid = (s.tcb t).wid ∧ (f (s.tcb t)).nodiswai = (s.tcb t).nodiswai ∧
      (f (s.tcb t)).waitmask = (s.tcb t).waitmask) : MaskInv (x, s.upd t f) := by
  refine inv.one rfl (fun u hu => ⟨upd_of_ne hu, rfl⟩) (fun _ _ h => h) fun hu => ?_
  obtain ⟨hold, hw, hid, hn, hm⟩ := hf hu
  obtain ⟨hfactor, hnodiswai⟩ := inv t hold
  have hatr : (s.upd t f).waitedAtr t = s.waitedAtr t :=
    waitedAtr_congr (by rw [upd_self, hw]) (by rw [upd_self, hid]) (fun _ _ => rfl) rfl
  rw [upd_self, hatr]
  exact ⟨by rwa [hw, hm, hn], by rwa [hn]⟩

theorem MaskInv.idle (inv : MaskInv (x, s)) (hobj : s'.objatr = s.objatr)
    (hrdv : s'.rdvatr = s.rdvatr) (hother : ∀ u, u ≠ t → s'.tcb u = s.tcb u)
    (haway : ∀ u, u ≠ t → some u ≠ x' → some u ≠ x) (hself : ¬Active (x', s') t) :
    MaskInv (x', s') :=
  inv.one hobj (fun u hu => ⟨hother u hu, by rw [hrdv]⟩) haway fun h => absurd h hself

theorem MaskInv.queues (inv : MaskInv (x, s)) (htcb : s'.tcb = s.tcb) (hobj : s'.objatr = s.objatr)
    (hrdv : s'.rdvatr = s.rdvatr) : MaskInv (x, s') := by
  refine inv.frame fun u hu => Or.inr ⟨?_, by rw [htcb], by rw [htcb], by rw [htcb],
    waitedAtr_congr (by rw [htcb]) (by rw [htcb]) (fun _ _ => by rw [hobj]) (by rw [hrdv])⟩
  unfold Active at hu ⊢
  rwa [htcb] at hu

theorem MaskInv.note (inv : MaskInv (x, s)) (e : KernEvent) : MaskInv (x, s.note e) :=
  inv.queues rfl rfl rfl

theorem MaskInv.priority (inv : MaskInv (x, s)) (t : Tsk) (p : ℕ) :
    MaskInv (x, s.reprioritize t p) := by
  have hupd : MaskInv (x, s.upd t fun c => { c with priority := p }) :=
    inv.upd fun hu => ⟨by simpa [Active] using hu, rfl, rfl, rfl, rfl⟩
  have hnew : MaskInv (x, (s.upd t fun c => { c with priority := p }).touch t) :=
    hupd.queues rfl rfl rfl
  unfold reprioritize
  dsimp only
  split_ifs
  · split
    · exact hnew
    · exact hnew.queues rfl rfl rfl
  · exact hnew

theorem MaskInv.same (inv : MaskInv (x, s)) (h : Same s s') : MaskInv (x, s') := by
  refine inv.frame fun u hu => ?_
  have hcore := h.tcb u
  unfold TaskCB.core at hcore
  simp only [TaskCB.mk.injEq] at hcore
  obtain ⟨hstate, -, -, -, hw, hid, hn, hm, -⟩ := hcore
  refine Or.inr ⟨⟨?_, hu.2⟩, hw, hn, hm, waitedAtr_congr hw hid (fun _ _ => by
    rw [h.objatr]) (by rw [h.rdvatr])⟩
  have hwait := hu.1
  rwa [hstate] at hwait

theorem MaskInv.held (inv : MaskInv (x, s)) {f : TaskCB → TaskCB} (h : (s.tcb t).Held (f (s.tcb t)))
    (hn : (f (s.tcb t)).nodiswai = (s.tcb t).nodiswai)
    (hm : (f (s.tcb t)).waitmask = (s.tcb t).waitmask) :
    MaskInv (x, s.upd t f) := by
  refine inv.upd fun hu => ⟨⟨?_, hu.2⟩, h.wspec, h.wid, hn, hm⟩
  have hwait := hu.1
  rwa [upd_self, h.isWait] at hwait

/-- A change of the attributes of an object that no task waits for. -/
theorem MaskInv.objatr (inv : MaskInv (none, s)) (htcb : s'.tcb = s.tcb)
    (hrdv : s'.rdvatr = s.rdvatr) (hobj : ∀ u q, Active (none, s) u → s.waitQueue u = some q →
      s'.objatr (q.1.obj, q.2) = s.objatr (q.1.obj, q.2)) : MaskInv (none, s') := by
  refine inv.frame fun u hu => ?_
  have hold : Active (none, s) u := by
    unfold Active at hu ⊢
    rwa [htcb] at hu
  exact Or.inr ⟨hold, by rw [htcb], by rw [htcb], by rw [htcb],
    waitedAtr_congr (by rw [htcb]) (by rw [htcb]) (fun q hq => hobj u q hold hq) (by rw [hrdv])⟩

theorem nodiswai_iff (atr : ℕ) :
    decide (atr &&& TA_NODISWAI ≠ 0) = true ↔ atr &&& TA_NODISWAI ≠ 0 := decide_eq_true_iff

theorem MaskInv.enter (inv : MaskInv (none, s)) {k : WaitKind} {id : ID} (tmout : ℤ)
    (hatr : s.objatr (k.obj, id) = some atr)
    (hmask : isDiswai atr (s.tcb t).waitmask k.tskwait = false) :
    MaskInv (none, s.gcbMakeWait t k id atr tmout) := by
  have hself := gcbMakeWait_self s t k id atr tmout
  refine inv.one (t := t) rfl (fun u hu => ⟨gcbMakeWait_of_ne hu .., rfl⟩) (fun _ _ h =>
    h) fun _ => ?_
  have hqueue : (s.gcbMakeWait t k id atr tmout).waitQueue t = some (k, id) := by
    unfold waitQueue
    rw [hself]
    dsimp only [TaskCB.entered]
    rw [wspec_kind]
    rfl
  have hatr' : (s.gcbMakeWait t k id atr tmout).waitedAtr t = atr := by
    rw [waitedAtr_queue hqueue]
    change (s.objatr (k.obj, id)).getD 0 = atr
    rw [hatr]
    rfl
  have hfactor : (k.wspec atr).tskwait = k.tskwait := by
    unfold WaitKind.wspec
    split_ifs with h
    · rw [h.1]
      rfl
    · rfl
  rw [hatr', hself]
  refine mayWait_of_isDiswai ?_ (nodiswai_iff atr)
  change isDiswai atr (s.tcb t).waitmask (k.wspec atr).tskwait = false
  rwa [hfactor]

theorem MaskInv.alone (inv : MaskInv (none, s)) {w : WaitSpec} {timed : Bool} (hw : w.kind = none)
    (hrdv : w ≠ .rdv) (hmask : (s.tcb t).waitmask &&& w.tskwait = 0) :
    MaskInv (none, s.waitAlone t w timed 0) := by
  have hself := waitAlone_self s t w timed 0
  refine inv.one (t := t) rfl (fun u hu => ⟨waitAlone_of_ne hu .., rfl⟩) (fun _ _ h =>
    h) fun _ => ?_
  rw [waitedAtr_alone (by rw [hself]; exact hw) (by rw [hself]; exact hrdv), hself]
  refine ⟨Or.inl ?_, nodiswai_iff 0⟩
  rw [Nat.and_comm]
  exact hmask

theorem mayWait_rdv {r : ℕ} (hspec : (s.tcb t).wspec = .rdv) (hr : s.rdvatr t = r)
    (hn : (s.tcb t).nodiswai = true ↔ r &&& TA_NODISWAI ≠ 0)
    (hmask : isDiswai r (s.tcb t).waitmask TTW_RDV = false) :
    (s.tcb t).MayWait (s.waitedAtr t) := by
  rw [waitedAtr_rdv hspec, hr]
  refine mayWait_of_isDiswai ?_ hn
  rwa [hspec]

theorem MaskInv.rdv (inv : MaskInv (none, s))
    (hmask : isDiswai atr (s.tcb t).waitmask TTW_RDV = false) :
    MaskInv (none, (s.waitAlone t .rdv false atr).toRdv t atr) := by
  have hself : ((s.waitAlone t .rdv false atr).toRdv t atr).tcb t =
      (s.tcb t).entered .rdv 0 false atr :=
    waitAlone_self s t .rdv false atr
  refine inv.one (t := t) rfl (fun u hu => ⟨waitAlone_of_ne hu .., Function.update_of_ne hu _ _⟩)
    (fun _ _ h => h)
    fun _ => mayWait_rdv (r := atr) (by rw [hself]; rfl) (Function.update_self _ _ _) ?_ ?_
  · rw [hself]
    exact nodiswai_iff atr
  · rw [hself]
    exact hmask

theorem MaskInv.accept (inv : MaskInv (none, s)) (link : LinkInv good (none, s)) {id : ID}
    (hu : u ∈ s.queue (.cal, id)) (hatr : s.objatr (.por, id) = some atr)
    (hmask : isDiswai atr (s.tcb u).waitmask TTW_RDV = false) :
    MaskInv (none, ((s.waitCancel u).setWait u .rdv 0).toRdv u atr) := by
  obtain ⟨hactive, hqueue⟩ := link.waits u (.cal, id) (Or.inr WaitKind.noConfusion) hu
  have hn := (inv u hactive).nodiswai
  change (s.tcb u).nodiswai = true ↔ s.waitedAtr u &&& TA_NODISWAI ≠ 0 at hn
  -- the flag is from the wait in the call queue of the same port
  rw [waitedAtr_queue hqueue, show s.objatr (WaitKind.obj .cal, id) = some atr from hatr] at hn
  refine inv.one (t := u) rfl (fun v hv => ⟨?_, Function.update_of_ne hv _ _⟩) (fun _ _ h => h)
    fun _ => mayWait_rdv (r := atr) ?_ (Function.update_self _ _ _) ?_ ?_
  · simp [toRdv, setWait, waitCancel, upd_of_ne hv]
  · simp [toRdv, setWait]
  · simpa [toRdv, setWait, waitCancel] using hn
  · simpa [toRdv, setWait, waitCancel] using hmask

theorem MaskInv.forward (inv : MaskInv (none, s)) {id : ID} (hatr : s.objatr (.por, id) = some atr)
    (hmask : isDiswai atr (s.tcb u).waitmask TTW_CAL = false) :
    MaskInv (none, s.toCal u id atr) := by
  have hqueue : (s.toCal u id atr).waitQueue u = some (.cal, id) := by
    simp [waitQueue, toCal, setWait, enqueue]
  have hatr' : (s.toCal u id atr).waitedAtr u = atr := by
    rw [waitedAtr_queue hqueue]
    change (s.objatr (.por, id)).getD 0 = atr
    rw [hatr]
    rfl
  refine inv.one (t := u) rfl (fun v hv => ⟨?_, rfl⟩) (fun _ _ h => h) fun _ => ?_
  · simp [toCal, setWait, enqueue, upd_of_ne hv]
  · rw [hatr']
    refine mayWait_of_isDiswai ?_ ?_
    · simpa [toCal, setWait, enqueue, WaitKind.wspec, WaitKind.tskwait] using hmask
    · simp [toCal, setWait, enqueue]

theorem MaskInv.newRdv (inv : MaskInv (none, s)) (hrdv : (s.tcb u).wspec = .rdv)
    (hmask : isDiswai atr (s.tcb u).waitmask TTW_RDV = false) :
    MaskInv (none, (s.upd u fun c => { c with nodiswai := atr &&& TA_NODISWAI ≠ 0 }).toRdv u
      atr) := by
  refine inv.one (t := u) rfl (fun v hv => ⟨?_, Function.update_of_ne hv _ _⟩) (fun _ _ h => h)
    fun _ => mayWait_rdv (r := atr) ?_ (Function.update_self _ _ _) ?_ ?_
  · simp [toRdv, upd_of_ne hv]
  · simpa [toRdv] using hrdv
  · simp [toRdv]
  · simpa [toRdv] using hmask

theorem MaskInv.step (inv : MaskInv a) (link : LinkInv good a) (h : KernStep good a b) :
    MaskInv b := by
  cases h with
  | release t h =>
    refine inv.idle (t := t) waitRelease_objatr waitRelease_rdvatr (fun u hu =>
      waitRelease_of_ne hu) (fun _ _ h => h)
      fun hu => ?_
    have hwait := hu.1
    dsimp only at hwait
    rw [waitRelease_self, isWait_released] at hwait
    cases hwait
  | priority t p h => exact inv.priority t p
  | same h => exact inv.same h
  | @mask x s t m h =>
    refine inv.one (t := t) rfl (fun u hu => ⟨upd_of_ne hu, rfl⟩) (fun _ _ h => h) fun hu => ?_
    have hold : Active (x, s) t := by simpa [Active] using hu
    have hatr : (s.upd t fun c => { c with waitmask := m }).waitedAtr t = s.waitedAtr t :=
      waitedAtr_congr (by rw [upd_self]) (by rw [upd_self]) (fun _ _ => rfl) rfl
    rw [upd_self, hatr]
    exact ⟨h hold.1, (inv t hold).nodiswai⟩
  | nonReady t h =>
    exact inv.idle (t := t) rfl rfl (fun u hu => upd_of_ne hu) (fun u _ _ => Option.some_ne_none u)
      fun hu => hu.2 rfl
  | cancel t h =>
    refine inv.idle (t := t) rfl rfl (fun u hu => ?_) (fun u _ _ => Option.some_ne_none u) fun hu =>
      hu.2 rfl
    rw [waitCancel, queRemove_tcb, upd_of_ne hu]
  | stay t h => exact inv.idle (t := t) rfl rfl (fun _ _ => rfl) (fun u _ _ =>
      Option.some_ne_none u) fun hu => hu.2 rfl
  | dormant t =>
    exact inv.idle (t := t) rfl rfl (fun u hu => upd_of_ne hu) (fun u hu _ e =>
      hu (Option.some.inj e))
      (not_active_of_state .dormant (by simp [makeDormant]) rfl)
  | gone t =>
    exact inv.idle (t := t) rfl rfl (fun u hu => upd_of_ne hu) (fun u hu _ e =>
      hu (Option.some.inj e))
      (not_active_of_state .nonexist (by simp) rfl)
  | create t p h =>
    rw [makeDormant, upd_upd]
    exact inv.idle (t := t) rfl rfl (fun u hu => upd_of_ne hu) (fun _ _ h => h)
      (not_active_of_state .dormant (by simp) rfl)
  | delete t h =>
    exact inv.idle (t := t) rfl rfl (fun u hu => upd_of_ne hu) (fun _ _ h => h)
      (not_active_of_state .nonexist (by simp) rfl)
  | start t h =>
    refine MaskInv.note ?_ _
    exact inv.idle (t := t) rfl rfl (fun u hu => upd_of_ne hu) (fun _ _ h => h)
      (not_active_of_state .ready (by simp [makeReady]) rfl)
  | @register s k id atr h =>
    refine inv.objatr rfl rfl fun u q hu hq => Function.update_of_ne (fun e => ?_) _ _
    obtain ⟨atr', hatr, -⟩ := link.registered u q hu hq
    rw [e, h] at hatr
    cases hatr
  | unregister k id h =>
    refine inv.objatr rfl rfl fun u q hu hq => Function.update_of_ne (fun e => ?_) _ _
    have hmem := link.linked u q hu hq
    obtain ⟨hk, rfl⟩ := Prod.mk.inj e
    rw [show q = (q.1, q.2) from rfl, h q.1 hk] at hmem
    cases hmem
  | enter t k id atr tmout runs hatr hmask => exact inv.enter tmout hatr hmask
  | alone t w timed runs hw hrdv hmask => exact inv.alone hw hrdv hmask
  | rdv t atr runs hmask => exact inv.rdv hmask
  | accept u id atr hu hatr hmask => exact inv.accept link hu hatr hmask
  | forward u id atr hw hrdv hatr hmask => exact inv.forward hatr hmask
  | newRdv u atr hw hrdv hmask => exact inv.newRdv hrdv hmask
  | suspend t h h' hmax =>
    rw [suspendTask_eq]
    exact (inv.held (TaskCB.suspended_held _) rfl rfl).note _
  | resume t h =>
    rw [resumeTask_eq]
    refine (inv.held (TaskCB.resumed_held h) ?_ ?_).note _ <;>
      · unfold TaskCB.resumed
        split_ifs <;> rfl
  | force t h =>
    rw [forceTask_eq]
    exact (inv.held (TaskCB.forced_held h) rfl rfl).note _
  | sleep t h => exact (inv.held ⟨rfl, rfl, rfl, rfl, id⟩ rfl rfl).note _
  | wake t h hd => exact (inv.held ⟨rfl, rfl, rfl, rfl, id⟩ rfl rfl).note _
  | awake t => exact (inv.note _).note _
  | clear t => exact (inv.held ⟨rfl, rfl, rfl, rfl, id⟩ rfl rfl).note _

theorem MaskInv.steps (inv : MaskInv a) (link : LinkInv good a) (h : KernSteps good a b) :
    MaskInv b := by
  induction h with
  | refl => exact inv
  | tail hs h ih => exact ih.step (link.steps hs) h

theorem KernRun.mask {ok : Kern → KernOp → Prop} (run : KernRun ok s) : MaskInv (none, s) := by
  induction run with
  | init s initial => exact fun t ht => absurd ht (not_active_of_state _ (initial.state t) rfl)
  | step run op runs fits hok ih =>
    have link : LinkInv False (none, _) := run.link nofun
    exact ih.steps link (link.exec_steps runs fits nofun)

/-- In every state between calls no task waits for a factor in its mask, unless the object it waits
for has `TA_NODISWAI`. -/
theorem kernRun_maskRight {ok : Kern → KernOp → Prop} (run : KernRun ok s) : MaskRight s :=
  fun t ht => run.mask t ⟨ht, Option.some_ne_none t⟩

/-- A task waits for a semaphore with `TA_NODISWAI`, although its mask has `TTW_SEM`. -/
def exemptRun : List KernOp :=
  [.creTsk 1 10 0, .staTsk 1 0, .creObj .sem 1 (TA_TPRI ||| TA_NODISWAI) 0,
    .disWai 1 ⟨0, 0⟩ TTW_SEM 0, .waiSem 1 1 TMO_FEVR false 0]

theorem kernRun_maskRight_exempt :
    ((execAll exemptRun boot).tcb 1).state = .wait ∧ MaskRight (execAll exemptRun boot) :=
  ⟨by decide +kernel,
    @kernRun_maskRight _ (fun _ _ => True) ((KernRun.init boot boot_initial).all
      (by decide +kernel))⟩

end SmpTKernel
