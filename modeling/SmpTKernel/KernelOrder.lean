import SmpTKernel.KernelInv

/-!
# The order of the wait queues

A queue ordered by priority has the more urgent tasks first, and those of the same priority in the
order in which they entered the queue or were given this priority last. The task whose priority
changes is in no other queue than the one its hook puts it in again.
-/

namespace SmpTKernel

open Kern

variable {good : Prop} {x x' : Option Tsk} {s s' : Kern} {t u v : Tsk} {q : QueueId} {atr : ℕ}

/-- `u` is to be served before `v`. -/
def Kern.Before (s : Kern) (u v : Tsk) : Prop :=
  s.pri u < s.pri v ∨ s.pri u = s.pri v ∧ s.stamp u < s.stamp v

/-- The waiting tasks in the queues ordered by priority are sorted. -/
def QueuesSorted (s : Kern) : Prop :=
  ∀ (k : WaitKind) (id : ID) (atr : ℕ), s.objatr (k.obj, id) = some atr → k.tpri atr = true →
    ((s.queue (k, id)).filter fun t => (s.tcb t).state.isWait).Pairwise s.Before

structure OrderInv (s : Kern) : Prop where
  sorted : ∀ (k : WaitKind) (id : ID) (atr : ℕ), s.objatr (k.obj, id) = some atr →
    k.tpri atr = true → (s.queue (k, id)).Pairwise s.Before
  stamped : ∀ q, ∀ t ∈ s.queue q, s.stamp t < s.clock

theorem wspec_ordered (k : WaitKind) (atr : ℕ) : (k.wspec atr).ordered = k.tpri atr := by
  unfold WaitKind.wspec
  split_ifs with h
  · obtain ⟨rfl, h⟩ := h
    simp [WaitSpec.ordered, WaitKind.tpri, h]
  · rfl

theorem Kern.Before.congr (h : s.Before u v) (hu : s'.pri u = s.pri u ∧ s'.stamp u = s.stamp u)
    (hv : s'.pri v = s.pri v ∧ s'.stamp v = s.stamp v) : s'.Before u v := by
  unfold Before
  rwa [hu.1, hu.2, hv.1, hv.2]

theorem Kern.Before.le (h : s.Before u v) : s.pri u ≤ s.pri v :=
  h.elim le_of_lt fun h => le_of_eq h.1

/-- A step that takes tasks out of queues, and leaves the others as they are. -/
theorem OrderInv.frame (inv : OrderInv s) (hsub : ∀ q, (s'.queue q).Sublist (s.queue q))
    (hsame : ∀ q, ∀ u ∈ s'.queue q, s'.pri u = s.pri u ∧ s'.stamp u = s.stamp u)
    (hclock : s.clock ≤ s'.clock)
    (hobj : ∀ q : QueueId, s'.queue q ≠ [] → s'.objatr (q.1.obj, q.2) = s.objatr (q.1.obj, q.2)) :
    OrderInv s' := by
  refine ⟨fun k id atr hatr htpri => ?_, fun q u hu => ?_⟩
  · by_cases hempty : s'.queue (k, id) = []
    · rw [hempty]
      exact List.Pairwise.nil
    · rw [hobj (k, id) hempty] at hatr
      have hold := (inv.sorted k id atr hatr htpri).sublist (hsub (k, id))
      exact hold.imp_of_mem fun hu hv h => h.congr (hsame _ _ hu) (hsame _ _ hv)
  · rw [(hsame q u hu).2]
    exact (inv.stamped q u ((hsub q).subset hu)).trans_le hclock

/-- The queues, the objects and the priorities of the tasks in the queues are the same. -/
theorem OrderInv.still (inv : OrderInv s) (hqueue : s'.queue = s.queue)
    (hobj : s'.objatr = s.objatr) (hstamp : s'.stamp = s.stamp) (hclock : s'.clock = s.clock)
    (hpri : ∀ q, ∀ u ∈ s.queue q, s'.pri u = s.pri u) : OrderInv s' := by
  refine inv.frame (fun q => hqueue ▸ List.Sublist.refl _) (fun q u hu =>
    ⟨hpri q u (hqueue ▸ hu), by rw [hstamp]⟩)
    hclock.ge fun _ _ => by rw [hobj]

theorem pri_upd {f : TaskCB → TaskCB} (hf : (f (s.tcb t)).priority = (s.tcb t).priority) (u : Tsk) :
    (s.upd t f).pri u = s.pri u := by
  unfold pri
  rw [upd_tcb]
  split_ifs with hu
  · rw [hu, hf]
  · rfl

theorem OrderInv.upd (inv : OrderInv s) {f : TaskCB → TaskCB}
    (hf : (f (s.tcb t)).priority = (s.tcb t).priority) :
    OrderInv (s.upd t f) :=
  inv.still rfl rfl rfl rfl fun _ u _ => pri_upd hf u

theorem OrderInv.idle (inv : OrderInv s) {f : TaskCB → TaskCB} (ht : ∀ q, t ∉ s.queue q) :
    OrderInv (s.upd t f) := by
  refine inv.still rfl rfl rfl rfl fun q u hu => ?_
  have hut : u ≠ t := fun e => ht q (e ▸ hu)
  unfold pri
  rw [upd_of_ne hut]

theorem OrderInv.note (inv : OrderInv s) (e : KernEvent) : OrderInv (s.note e) :=
  inv.still rfl rfl rfl rfl fun _ _ _ => rfl

theorem OrderInv.rdvatr (inv : OrderInv s) (t : Tsk) (atr : ℕ) : OrderInv (s.toRdv t atr) :=
  inv.still rfl rfl rfl rfl fun _ _ _ => rfl

theorem OrderInv.queRemove (inv : OrderInv s) (t : Tsk) : OrderInv (s.queRemove t) :=
  inv.frame (fun _ => List.erase_sublist) (fun _ _ _ => ⟨rfl, rfl⟩) le_rfl fun _ _ => rfl

theorem OrderInv.release (inv : OrderInv s) (t : Tsk) : OrderInv (s.waitRelease t) := by
  rw [waitRelease_eq]
  refine OrderInv.queRemove (inv.upd ?_) t
  unfold TaskCB.released
  split_ifs <;> rfl

/-- A task with a new stamp is put where its priority puts it. -/
theorem insert_before {l : List Tsk} (hstamp : ∀ w ∈ l, s.stamp w < s.stamp t)
    (h : l.Pairwise s.Before) :
    (queueInsertTpri s.pri t l).Pairwise s.Before := by
  refine queueInsertTpri_pairwise (h.imp Before.le) h (fun w hw hle => ?_) fun w _ hlt => Or.inl hlt
  exact hle.lt_or_eq.imp_right fun he => ⟨he, hstamp w hw⟩

/-- Only the task `t` has a new priority and a new stamp. -/
structure Touched (t : Tsk) (s s' : Kern) : Prop where
  pri : ∀ u, u ≠ t → s'.pri u = s.pri u
  stamp : s'.stamp = Function.update s.stamp t s.clock
  clock : s'.clock = s.clock + 1
  objatr : s'.objatr = s.objatr

theorem Touched.same (h : Touched t s s') (hu : u ≠ t) :
    s'.pri u = s.pri u ∧ s'.stamp u = s.stamp u :=
  ⟨h.pri u hu, by rw [h.stamp, Function.update_of_ne hu]⟩

theorem Touched.stamp_lt (h : Touched t s s') (inv : OrderInv s) (hu : u ∈ s.queue q ∨ u = t) :
    s'.stamp u < s'.clock := by
  rw [h.stamp, h.clock]
  by_cases hut : u = t
  · rw [hut, Function.update_self]
    exact Nat.lt_succ_self _
  · rw [Function.update_of_ne hut]
    exact (inv.stamped q u (hu.resolve_right hut)).trans (Nat.lt_succ_self _)

theorem Touched.pairwise (h : Touched t s s') {l : List Tsk} (hl : l.Pairwise s.Before)
    (ht : t ∉ l) :
    l.Pairwise s'.Before :=
  hl.imp_of_mem fun hu hv hb => hb.congr (h.same fun e => ht (e ▸ hu)) (h.same fun e => ht (e ▸ hv))

theorem OrderInv.touched (inv : OrderInv s) (h : Touched t s s') (hqueue : s'.queue = s.queue)
    (ht : ∀ (k : WaitKind) (id : ID) (atr : ℕ), s.objatr (k.obj, id) = some atr →
      k.tpri atr = true →
      t ∉ s.queue (k, id)) : OrderInv s' := by
  refine ⟨fun k id atr hatr htpri => ?_, fun q u hu => ?_⟩
  · rw [h.objatr] at hatr
    rw [hqueue]
    exact h.pairwise (inv.sorted k id atr hatr htpri) (ht k id atr hatr htpri)
  · rw [hqueue] at hu
    exact h.stamp_lt inv (Or.inl hu)

/-- The task is put in the queue, and is in no other. -/
theorem OrderInv.put (inv : OrderInv s) (h : Touched t s s') (tpri : Bool) {l : List Tsk}
    (hl : l.Sublist (s.queue q)) (htl : t ∉ l) (hother : ∀ p, p ≠ q → t ∉ s.queue p)
    (hqueue : s'.queue = Function.update s.queue q (if tpri then queueInsertTpri s'.pri t l
      else l ++ [t]))
    (htpri : ∀ atr, s.objatr (q.1.obj, q.2) = some atr → q.1.tpri atr = true → tpri = true) :
    OrderInv s' := by
  refine ⟨fun k id atr hatr hk => ?_, fun p u hu => ?_⟩
  · rw [h.objatr] at hatr
    rw [hqueue]
    by_cases hq : (k, id) = q
    · subst hq
      have hold := (inv.sorted k id atr hatr hk).sublist hl
      rw [Function.update_self, if_pos (htpri atr hatr hk)]
      refine insert_before (fun w hw => ?_) (h.pairwise hold htl)
      have hne : w ≠ t := fun e => htl (e ▸ hw)
      rw [h.stamp, Function.update_self, Function.update_of_ne hne]
      exact inv.stamped _ w (hl.subset hw)
    · rw [Function.update_of_ne hq]
      exact h.pairwise (inv.sorted k id atr hatr hk) (hother _ hq)
  · rw [hqueue] at hu
    by_cases hq : p = q
    · subst hq
      rw [Function.update_self] at hu
      rcases List.mem_cons.mp ((enqueue_perm _ _ _).mem_iff.mp hu) with he | hu
      · exact h.stamp_lt (q := p) inv (Or.inr he)
      · exact h.stamp_lt inv (Or.inl (hl.subset hu))
    · rw [Function.update_of_ne hq] at hu
      exact h.stamp_lt inv (Or.inl hu)

theorem OrderInv.priority (inv : OrderInv s) (link : LinkInv True (x, s)) (t : Tsk) (p : ℕ) :
    OrderInv (s.reprioritize t p) := by
  have htouch : Touched t s ((s.upd t fun c => { c with priority := p }).touch t) := by
    refine ⟨fun u hu => ?_, rfl, rfl, rfl⟩
    unfold pri
    rw [touch_tcb, upd_of_ne hu]
  -- a task in a queue ordered by priority has a wait specification with the hook
  have hidle (hw : ¬((s.tcb t).state.isWait ∧ (s.tcb t).wspec.ordered)) :
    ∀ (k : WaitKind) (id : ID) (atr : ℕ),
      s.objatr (k.obj, id) = some atr → k.tpri atr = true → t ∉ s.queue (k, id) := by
    intro k id atr hatr htpri hmem
    obtain ⟨hactive, hqueue⟩ := link.waits t (k, id) (Or.inl trivial) hmem
    obtain ⟨atr', hatr', hspec⟩ := link.registered t (k, id) hactive hqueue
    obtain rfl : atr = atr' := Option.some.inj (hatr.symm.trans hatr')
    exact hw ⟨hactive.1, by rw [hspec, wspec_ordered, htpri]⟩
  unfold reprioritize
  dsimp only
  rw [touch_tcb, upd_self]
  by_cases hw : (s.tcb t).state.isWait ∧ (s.tcb t).wspec.ordered
  · rw [if_pos hw]
    have hsame : ((s.upd t fun c => { c with priority := p }).touch t).waitQueue t =
        s.waitQueue t :=
      waitQueue_congr (by rw [touch_tcb, upd_self]) (by rw [touch_tcb, upd_self])
    rw [hsame]
    cases hq : s.waitQueue t with
    | none =>
      refine inv.touched htouch rfl fun k id atr _ _ hmem => ?_
      rw [(link.waits t (k, id) (Or.inl trivial) hmem).2] at hq
      cases hq
    | some q =>
      refine inv.put ⟨htouch.pri, rfl, rfl, rfl⟩ true List.erase_sublist ?_
        (fun r hr hmem => ?_) rfl
        fun _ _ _ => rfl
      · exact (link.nodup q (Or.inl trivial)).not_mem_erase
      · rw [(link.waits t r (Or.inl trivial) hmem).2] at hq
        exact hr (Option.some.inj hq)
  · rw [if_neg hw]
    exact inv.touched htouch rfl (hidle hw)

theorem OrderInv.enqueue (inv : OrderInv s) {k : WaitKind} {id : ID}
    (hatr : s.objatr (k.obj, id) = some atr) (ht : ∀ q, t ∉ s.queue q) :
    OrderInv (s.enqueue t (k, id) (k.tpri atr)) := by
  have h : Touched t s (s.enqueue t (k, id) (k.tpri atr)) := ⟨fun _ _ => rfl, rfl, rfl, rfl⟩
  refine inv.put h (k.tpri atr) (List.Sublist.refl (s.queue (k, id))) (ht _) (fun p _ => ht p) rfl
    fun atr' hatr' htpri => ?_
  obtain rfl : atr = atr' := Option.some.inj (hatr.symm.trans hatr')
  exact htpri

theorem OrderInv.setWait (inv : OrderInv s) (t : Tsk) (w : WaitSpec) (wid : ID) :
    OrderInv (s.setWait t w wid) :=
  inv.upd rfl

theorem OrderInv.enterWait (inv : OrderInv s) (t : Tsk) (timed : Bool) (atr : ℕ) :
    OrderInv (s.enterWait t timed atr) :=
  inv.upd rfl

theorem OrderInv.waitCancel (inv : OrderInv s) (t : Tsk) : OrderInv (s.waitCancel t) :=
  OrderInv.queRemove (inv.upd rfl) t

theorem OrderInv.alone (inv : OrderInv s) (t : Tsk) (w : WaitSpec) (timed : Bool) (atr : ℕ) :
    OrderInv (s.waitAlone t w timed atr) := (inv.setWait t w 0).enterWait t timed atr

theorem OrderInv.register (inv : OrderInv s) (k : ObjKind) (id : ID) (atr : ℕ) :
    OrderInv (s.register k id atr) := by
  have hqueue (q : QueueId) : (s.register k id atr).queue q = [] ∨
      (q.1.obj, q.2) ≠ (k, id) ∧ (s.register k id atr).queue q = s.queue q := by
    by_cases hq : q.1.obj = k ∧ q.2 = id
    · exact Or.inl (if_pos hq)
    · exact Or.inr ⟨fun e => hq (Prod.mk.inj e), if_neg hq⟩
  refine inv.frame (fun q => ?_) (fun _ _ _ => ⟨rfl, rfl⟩) le_rfl fun q hq => ?_
  · rcases hqueue q with he | ⟨-, he⟩
    · rw [he]
      exact List.nil_sublist _
    · rw [he]
  · exact Function.update_of_ne ((hqueue q).resolve_left hq).1 _ _

theorem OrderInv.unregister (inv : OrderInv s) {k : ObjKind} {id : ID}
    (h : ∀ w : WaitKind, w.obj = k → s.queue (w, id) = []) : OrderInv (s.unregister k id) := by
  refine inv.frame (fun q => List.Sublist.refl _) (fun _ _ _ => ⟨rfl, rfl⟩) le_rfl fun q hq => ?_
  refine Function.update_of_ne (fun e => hq ?_) _ _
  obtain ⟨hk, rfl⟩ := Prod.mk.inj e
  exact h q.1 hk

theorem OrderInv.step (inv : OrderInv s) (link : LinkInv True (x, s))
    (h : KernStep True (x, s) (x', s')) :
    OrderInv s' := by
  have hrest {t : Tsk} (ht : ¬Active (x, s) t ∨ s.waitQueue t = none) (q : QueueId) :
      t ∉ s.queue q :=
    link.not_mem (fun hw => ht.resolve_left fun hn => hn hw) (Or.inl trivial)
  cases h with
  | release t h => exact inv.release t
  | priority t p h => exact inv.priority link t p
  | same h =>
    refine inv.still h.queue h.objatr h.stamp h.clock fun q u _ => ?_
    have hcore := h.tcb u
    unfold TaskCB.core at hcore
    simp only [TaskCB.mk.injEq] at hcore
    exact hcore.2.1
  | mask t m h => exact inv.upd rfl
  | nonReady t h => exact inv.upd rfl
  | cancel t h => exact inv.waitCancel t
  | stay t h => exact inv
  | dormant t => exact inv.idle (hrest (Or.inl fun h => h.2 rfl))
  | gone t => exact inv.upd rfl
  | create t p h =>
    rw [makeDormant, upd_upd]
    exact inv.idle (hrest (Or.inl (not_active_of_state _ h rfl)))
  | delete t h => exact inv.upd rfl
  | start t h => exact OrderInv.note (inv.upd rfl) _
  | register k id atr h => exact inv.register k id atr
  | unregister k id h => exact inv.unregister h
  | enter t k id atr tmout runs hatr hmask =>
    have hwait : OrderInv ((s.setWait t (k.wspec atr) id).makeWait t tmout atr) :=
      (inv.setWait t (k.wspec atr) id).enterWait t _ atr
    exact hwait.enqueue hatr (hrest (Or.inl runs.not_active))
  | alone t w timed runs hw hrdv hmask => exact inv.alone t w timed 0
  | rdv t atr runs hmask => exact (inv.alone t .rdv false atr).rdvatr t atr
  | accept u id atr hu hatr hmask =>
    exact ((inv.waitCancel u).setWait u .rdv 0).rdvatr u atr
  | forward u id atr hw hrdv hatr hmask =>
    have hwait : OrderInv ((s.setWait u (WaitKind.wspec atr .cal) id).upd u fun c =>
        { c with nodiswai := atr &&& TA_NODISWAI ≠ 0, timed := false }) :=
      (inv.setWait u (WaitKind.wspec atr .cal) id).upd rfl
    exact hwait.enqueue hatr (hrest (Or.inr (waitQueue_eq_none.mpr (by rw [hrdv]; rfl))))
  | newRdv u atr hw hrdv hmask => exact OrderInv.rdvatr (inv.upd rfl) u atr
  | suspend t h h' hmax =>
    rw [suspendTask_eq]
    exact OrderInv.note (inv.upd rfl) _
  | resume t h =>
    rw [resumeTask_eq]
    refine OrderInv.note (inv.upd ?_) _
    unfold TaskCB.resumed
    split_ifs <;> rfl
  | force t h =>
    rw [forceTask_eq]
    exact OrderInv.note (inv.upd rfl) _
  | sleep t h => exact OrderInv.note (inv.upd rfl) _
  | wake t h hd => exact OrderInv.note (inv.upd rfl) _
  | awake t => exact (inv.note _).note _
  | clear t => exact OrderInv.note (inv.upd rfl) _

theorem OrderInv.steps {a b : Option Tsk × Kern} (inv : OrderInv a.2) (link : LinkInv True a)
    (h : KernSteps True a b) : OrderInv b.2 := by
  induction h with
  | refl => exact inv
  | tail hs h ih => exact ih.step (link.steps hs) h

theorem Kern.Initial.order (h : s.Initial) : OrderInv s := by
  refine ⟨fun k id atr hatr => ?_, fun q t ht => ?_⟩
  · rw [h.objatr] at hatr
    cases hatr
  · rw [h.queue] at ht
    cases ht

theorem KernRun.order (run : KernRun (fun s op => op.Straight s) s) : OrderInv s := by
  induction run with
  | init s initial => exact initial.order
  | step run op runs fits hok ih =>
    have link : LinkInv True (none, _) := run.link fun _ _ _ h => h
    exact OrderInv.steps (a := (none, _)) (b := (none, _)) ih link
      (link.exec_steps runs fits fun _ => hok)

/-- The queues ordered by priority stay sorted in every run in which no termination of a waiting
task gives it a priority. -/
theorem kernRun_sorted (run : KernRun (fun s op => op.Straight s) s) : QueuesSorted s :=
  fun k id atr hatr htpri => (run.order.sorted k id atr hatr htpri).sublist List.filter_sublist

/-- Task 1 holds a mutex with inheritance that task 3 waits for, and waits for a semaphore behind
task 2 until the priority of task 3 is given to it. -/
def inheritRun : List KernOp :=
  [.creTsk 1 30 0, .creTsk 2 20 0, .creTsk 3 10 0, .creMtx 1 TA_INHERIT 0 0,
    .creObj .sem 1 TA_TPRI 0, .staTsk 1 0, .staTsk 2 0, .staTsk 3 0,
    .locMtx 1 ⟨0, 9⟩ 1 TMO_FEVR 0, .waiSem 2 1 TMO_FEVR false 0, .waiSem 1 1 TMO_FEVR false 0,
    .locMtx 3 ⟨0, 9⟩ 1 TMO_FEVR 0]

theorem kernRun_sorted_inherit :
    (execAll inheritRun boot).queue (.sem, 1) = [1, 2] ∧ QueuesSorted (execAll inheritRun boot) :=
  ⟨by decide +kernel, kernRun_sorted ((KernRun.init boot boot_initial).all (by decide +kernel))⟩

/-- Task 1 and task 2 hold the mutexes 1 and 2 and wait for each other's; task 3 waited for mutex 1
for a while, so that they had its priority. Task 4 waits for mutex 2, task 1 is terminated, and task
5 begins to wait for mutex 2. -/
def orderRun : List KernOp :=
  [.creTsk 1 30 0, .creTsk 2 20 0, .creTsk 3 5 0, .creTsk 4 25 0, .creTsk 5 28 0,
    .creMtx 1 TA_INHERIT 0 0, .creMtx 2 TA_INHERIT 0 0, .staTsk 1 0, .staTsk 2 0, .staTsk 3 0,
    .staTsk 4 0, .staTsk 5 0, .locMtx 1 ⟨0, 9⟩ 1 TMO_FEVR 0, .locMtx 2 ⟨0, 9⟩ 2 TMO_FEVR 0,
    .locMtx 2 ⟨0, 9⟩ 1 TMO_FEVR 0, .locMtx 3 ⟨0, 9⟩ 1 1 0, .locMtx 1 ⟨0, 9⟩ 2 TMO_FEVR 0,
    .locMtx 4 ⟨0, 9⟩ 2 TMO_FEVR 0, .timeout 3 ⟨0, 9⟩, .terTsk 1 ⟨0, 9⟩ 0,
    .locMtx 5 ⟨0, 9⟩ 2 TMO_FEVR 0]

/-- Task 5 is before task 4, although task 4 is more urgent: the terminated task is between them. -/
theorem kernRun_sorted_wrong : ¬∀ s, KernRun (fun _ _ => True) s → QueuesSorted s := by
  intro h
  have run : KernRun (fun _ _ => True) (execAll orderRun boot) :=
    (KernRun.init boot boot_initial).all (by decide +kernel)
  have hqueue : (execAll orderRun boot).objatr (.mtx, 2) = some TA_INHERIT ∧
      ((execAll orderRun boot).queue (.mtx, 2)).filter (fun t =>
        ((execAll orderRun boot).tcb t).state.isWait) =
        [5, 4] ∧
      (execAll orderRun boot).pri 4 < (execAll orderRun boot).pri 5 := by decide +kernel
  obtain ⟨hatr, hwaiting, hpri⟩ := hqueue
  have hsorted := h _ run .mtx 2 TA_INHERIT hatr (by decide)
  rw [hwaiting] at hsorted
  exact absurd (List.rel_of_pairwise_cons hsorted List.mem_cons_self).le (not_le.mpr hpri)

end SmpTKernel
