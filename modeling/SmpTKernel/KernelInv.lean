import SmpTKernel.KernelSteps

/-!
# Waiting tasks and their queues

The invariant of the wait queues over the steps. A waiting task is in the queue of the object it
waits for and the object is there, in all runs; that a queue has no other tasks and no task twice is
true of the queues of mutexes only as long as no priority is given to a waiting task that is away.
-/

namespace SmpTKernel

open Kern Relation

variable {good : Prop} {x x' : Option Tsk} {s s' : Kern} {a b : Option Tsk × Kern} {t u : Tsk}
  {q : QueueId}

namespace Kern

/-- The task waits and is not away. -/
def Active (a : Option Tsk × Kern) (t : Tsk) : Prop := (a.2.tcb t).state.isWait ∧ some t ≠ a.1

/-- The object that the task waits for is there, and the wait specification is the one of its
attributes. -/
def Registered (s : Kern) (t : Tsk) (q : QueueId) : Prop :=
  ∃ atr, s.objatr (q.1.obj, q.2) = some atr ∧ (s.tcb t).wspec = q.1.wspec atr

end Kern

structure LinkInv (good : Prop) (a : Option Tsk × Kern) : Prop where
  linked : ∀ t q, Active a t → a.2.waitQueue t = some q → t ∈ a.2.queue q
  waits : ∀ t q, good ∨ q.1 ≠ .mtx → t ∈ a.2.queue q → Active a t ∧ a.2.waitQueue t = some q
  nodup : ∀ q, good ∨ q.1 ≠ .mtx → (a.2.queue q).Nodup
  registered : ∀ t q, Active a t → a.2.waitQueue t = some q → a.2.Registered t q
  timed : ∀ t, (a.2.tcb t).timed → Active a t
  ready : good → ∀ t, (a.2.tcb t).ready = true ↔ (a.2.tcb t).state = .ready ∧ some t ≠ a.1

theorem waitQueue_congr (hw : (s'.tcb t).wspec = (s.tcb t).wspec)
    (hid : (s'.tcb t).wid = (s.tcb t).wid) :
    s'.waitQueue t = s.waitQueue t := by
  unfold waitQueue
  rw [hw, hid]

theorem waitQueue_eq (h : s.waitQueue t = some q) :
    (s.tcb t).wspec.kind = some q.1 ∧ (s.tcb t).wid = q.2 := by
  obtain ⟨k, hk, rfl⟩ := Option.map_eq_some_iff.mp h
  exact ⟨hk, rfl⟩

theorem waitQueue_eq_none : s.waitQueue t = none ↔ (s.tcb t).wspec.kind = none :=
  Option.map_eq_none_iff

@[simp] theorem wspec_kind (k : WaitKind) (atr : ℕ) : (k.wspec atr).kind = some k := by
  unfold WaitKind.wspec
  split_ifs with h
  · rw [h.1]
    rfl
  · rfl

/-- The task has a place in no queue, except perhaps that of a mutex in a run that is not `good`. -/
theorem LinkInv.not_mem (inv : LinkInv good a) (ht : Active a t → a.2.waitQueue t = none)
    (hq : good ∨ q.1 ≠ .mtx) : t ∉ a.2.queue q := by
  intro hmem
  obtain ⟨hactive, hqueue⟩ := inv.waits t q hq hmem
  rw [ht hactive] at hqueue
  cases hqueue

/-- A step that leaves the queues and the objects; a task may begin a wait in no queue. -/
theorem LinkInv.still (inv : LinkInv good (x, s)) (hqueue : s'.queue = s.queue)
    (hobj : s'.objatr = s.objatr)
    (old : ∀ u, Active (x, s) u → Active (x', s') u ∧ (s'.tcb u).wspec = (s.tcb u).wspec ∧
      (s'.tcb u).wid = (s.tcb u).wid)
    (new : ∀ u, Active (x', s') u → Active (x, s) u ∨ s'.waitQueue u = none)
    (timed : ∀ u, (s'.tcb u).timed → Active (x', s') u)
    (ready : good → ∀ u, (s'.tcb u).ready = true ↔ (s'.tcb u).state = .ready ∧ some u ≠ x') :
    LinkInv good (x', s') := by
  have hsame (u : Tsk) (hu : Active (x, s) u) : s'.waitQueue u = s.waitQueue u :=
    waitQueue_congr (old u hu).2.1 (old u hu).2.2
  refine ⟨fun u q hu hq => ?_, fun u q hg hmem => ?_, fun q hg => ?_, fun u q hu hq => ?_,
    timed, ready⟩
  · rcases new u hu with h | h
    · exact hqueue ▸ inv.linked u q h (hsame u h ▸ hq)
    · rw [h] at hq
      cases hq
  · obtain ⟨hu, hq⟩ := inv.waits u q hg (hqueue ▸ hmem)
    exact ⟨(old u hu).1, (hsame u hu).trans hq⟩
  · exact hqueue ▸ inv.nodup q hg
  · rcases new u hu with h | h
    · obtain ⟨atr, hatr, hspec⟩ := inv.registered u q h (hsame u h ▸ hq)
      exact ⟨atr, hobj ▸ hatr, (old u h).2.1.trans hspec⟩
    · rw [h] at hq
      cases hq

/-- A step that takes the task out of its queue. -/
theorem LinkInv.leave (inv : LinkInv good (x, s)) (hqueue : ∀ q, s'.queue q = (s.queue q).erase t)
    (hobj : s'.objatr = s.objatr) (hself : Active (x', s') t → s'.waitQueue t = none)
    (htimed : (s'.tcb t).timed = false) (htcb : ∀ u, u ≠ t → s'.tcb u = s.tcb u)
    (haway : ∀ u, u ≠ t → (some u = x' ↔ some u = x))
    (ready : good → ((s'.tcb t).ready = true ↔ (s'.tcb t).state = .ready ∧ some t ≠ x')) :
    LinkInv good (x', s') := by
  have hactive (u : Tsk) (hu : u ≠ t) : Active (x', s') u ↔ Active (x, s) u := by
    unfold Active
    rw [htcb u hu]
    exact and_congr_right fun _ => not_congr (haway u hu)
  have hsame (u : Tsk) (hu : u ≠ t) : s'.waitQueue u = s.waitQueue u := by
    unfold waitQueue
    rw [htcb u hu]
  refine ⟨fun u q hu hq => ?_, fun u q hg hmem => ?_, fun q hg => ?_, fun u q hu hq => ?_,
    fun u hu => ?_, fun hg u => ?_⟩
  · have hne : u ≠ t := fun e => by
      rw [e] at hu hq
      rw [hself hu] at hq
      cases hq
    rw [hqueue]
    exact (List.mem_erase_of_ne hne).mpr (inv.linked u q ((hactive u hne).mp hu) (hsame u hne ▸ hq))
  · rw [hqueue, (inv.nodup q hg).mem_erase_iff] at hmem
    rw [hactive u hmem.1, hsame u hmem.1]
    exact inv.waits u q hg hmem.2
  · rw [hqueue]
    exact (inv.nodup q hg).erase t
  · have hne : u ≠ t := fun e => by
      rw [e] at hu hq
      rw [hself hu] at hq
      cases hq
    obtain ⟨atr, hatr, hspec⟩ := inv.registered u q ((hactive u hne).mp hu) (hsame u hne ▸ hq)
    exact ⟨atr, hobj ▸ hatr, (htcb u hne).symm ▸ hspec⟩
  · have hne : u ≠ t := fun e => by
      rw [e, htimed] at hu
      cases hu
    exact (hactive u hne).mpr (inv.timed u (htcb u hne ▸ hu))
  · by_cases hu : u = t
    · rw [hu]
      exact ready hg
    · rw [htcb u hu, inv.ready hg u]
      exact and_congr_right fun _ => not_congr (haway u hu).symm

/-- A step that puts the task in a queue. -/
theorem LinkInv.join (inv : LinkInv good (none, s)) (ht : Active (none, s) t → s.waitQueue t = none)
    {l : List Tsk} (hperm : l.Perm (t :: s.queue q))
    (hqueue : s'.queue = Function.update s.queue q l) (hobj : s'.objatr = s.objatr)
    (hself : Active (none, s') t) (hq : s'.waitQueue t = some q) (hreg : s'.Registered t q)
    (htcb : ∀ u, u ≠ t → s'.tcb u = s.tcb u) (ready : good → (s'.tcb t).ready = false) :
    LinkInv good (none, s') := by
  have hactive (u : Tsk) (hu : u ≠ t) : Active (none, s') u ↔ Active (none, s) u := by
    unfold Active
    rw [htcb u hu]
  have hsame (u : Tsk) (hu : u ≠ t) : s'.waitQueue u = s.waitQueue u := by
    unfold waitQueue
    rw [htcb u hu]
  refine ⟨fun u p hu hp => ?_, fun u p hg hmem => ?_, fun p hg => ?_, fun u p hu hp => ?_,
    fun u hu => ?_, fun hg u => ?_⟩
  · by_cases hut : u = t
    · subst hut
      obtain rfl : q = p := Option.some.inj (hq.symm.trans hp)
      rw [hqueue, Function.update_self]
      exact hperm.mem_iff.mpr List.mem_cons_self
    · have hmem := inv.linked u p ((hactive u hut).mp hu) (hsame u hut ▸ hp)
      rw [hqueue]
      by_cases hpq : p = q
      · subst hpq
        rw [Function.update_self]
        exact hperm.mem_iff.mpr (List.mem_cons_of_mem t hmem)
      · rwa [Function.update_of_ne hpq]
  · rw [hqueue] at hmem
    by_cases hut : u = t
    · subst hut
      by_cases hpq : p = q
      · exact hpq ▸ ⟨hself, hq⟩
      · rw [Function.update_of_ne hpq] at hmem
        exact absurd hmem (inv.not_mem ht hg)
    · rw [hactive u hut, hsame u hut]
      refine inv.waits u p hg ?_
      by_cases hpq : p = q
      · subst hpq
        rw [Function.update_self] at hmem
        exact (List.mem_cons.mp (hperm.mem_iff.mp hmem)).resolve_left hut
      · rwa [Function.update_of_ne hpq] at hmem
  · rw [hqueue]
    by_cases hpq : p = q
    · subst hpq
      rw [Function.update_self]
      exact hperm.nodup_iff.mpr (List.nodup_cons.mpr ⟨inv.not_mem ht hg, inv.nodup p hg⟩)
    · rw [Function.update_of_ne hpq]
      exact inv.nodup p hg
  · by_cases hut : u = t
    · subst hut
      obtain rfl : q = p := Option.some.inj (hq.symm.trans hp)
      exact hreg
    · obtain ⟨atr, hatr, hspec⟩ := inv.registered u p ((hactive u hut).mp hu) (hsame u hut ▸ hp)
      exact ⟨atr, hobj ▸ hatr, (htcb u hut).symm ▸ hspec⟩
  · by_cases hut : u = t
    · exact hut ▸ hself
    · exact (hactive u hut).mpr (inv.timed u (htcb u hut ▸ hu))
  · by_cases hut : u = t
    · subst hut
      rw [ready hg]
      refine iff_of_false Bool.false_ne_true fun h => ?_
      have hwait := hself.1
      rw [h.1] at hwait
      cases hwait
    · rw [htcb u hut]
      exact inv.ready hg u

/-! ## Each step -/

/-- Writing fields of one control block, when the task goes on to wait for the same or does not
wait. -/
theorem LinkInv.upd (inv : LinkInv good (x, s)) {f : TaskCB → TaskCB}
    (old : Active (x, s) t → Active (x', s.upd t f) t ∧ (f (s.tcb t)).wspec = (s.tcb t).wspec ∧
      (f (s.tcb t)).wid = (s.tcb t).wid)
    (new : Active (x', s.upd t f) t → Active (x, s) t ∨ (f (s.tcb t)).wspec.kind = none)
    (timed : (f (s.tcb t)).timed = true → Active (x', s.upd t f) t)
    (haway : ∀ u, u ≠ t → (some u = x' ↔ some u = x))
    (ready : good → ((f (s.tcb t)).ready = true ↔ (f (s.tcb t)).state = .ready ∧ some t ≠ x')) :
    LinkInv good (x', s.upd t f) := by
  have hactive (u : Tsk) (hu : u ≠ t) : Active (x', s.upd t f) u ↔ Active (x, s) u := by
    unfold Active
    dsimp only
    rw [upd_of_ne hu]
    exact and_congr_right fun _ => not_congr (haway u hu)
  refine inv.still rfl rfl (fun u hu => ?_) (fun u hu => ?_) (fun u hu => ?_) fun hg u => ?_
  · by_cases hut : u = t
    · subst hut
      rw [upd_self]
      exact old hu
    · rw [upd_of_ne hut]
      exact ⟨(hactive u hut).mpr hu, rfl, rfl⟩
  · by_cases hut : u = t
    · subst hut
      rw [waitQueue_eq_none, upd_self]
      exact new hu
    · exact Or.inl ((hactive u hut).mp hu)
  · by_cases hut : u = t
    · subst hut
      rw [upd_self] at hu
      exact timed hu
    · rw [upd_of_ne hut] at hu
      exact (hactive u hut).mpr (inv.timed u hu)
  · by_cases hut : u = t
    · subst hut
      rw [upd_self]
      exact ready hg
    · rw [upd_of_ne hut, inv.ready hg u]
      exact and_congr_right fun _ => not_congr (haway u hut).symm

theorem LinkInv.release (inv : LinkInv good (x, s))
    (h : (∃ q, t ∈ s.queue q) ∨ (s.tcb t).state.isWait ∧ some t ≠ x) :
    LinkInv good (x, s.waitRelease t) := by
  have hidle : ¬Active (x, s.waitRelease t) t := by
    unfold Active
    dsimp only
    rw [waitRelease_self, isWait_released]
    exact fun h => Bool.false_ne_true h.1
  refine inv.leave (fun q => waitRelease_queue q) waitRelease_objatr (fun hw => absurd hw hidle) ?_
    (fun u hu => waitRelease_of_ne hu) (fun _ _ => Iff.rfl) fun hg => ?_
  · rw [waitRelease_self, TaskCB.released]
    split_ifs <;> rfl
  · have hactive : Active (x, s) t := by
      rcases h with ⟨q, hq⟩ | h
      · exact (inv.waits t q (Or.inl hg) hq).1
      · exact h
    rw [waitRelease_self, TaskCB.released]
    split_ifs with hw
    · exact iff_of_true rfl ⟨rfl, hactive.2⟩
    · have hnot : ¬(s.tcb t).ready = true := fun hr => by
        have hwait := hactive.1
        rw [((inv.ready hg t).mp hr).1] at hwait
        cases hwait
      exact iff_of_false hnot fun h => h.1

theorem LinkInv.same (inv : LinkInv good (x, s)) (h : Same s s') : LinkInv good (x, s') := by
  have hcore (u : Tsk) : (s'.tcb u).state = (s.tcb u).state ∧ (s'.tcb u).wspec = (s.tcb u).wspec ∧
      (s'.tcb u).wid = (s.tcb u).wid ∧ (s'.tcb u).timed = (s.tcb u).timed ∧
      (s'.tcb u).ready = (s.tcb u).ready := by
    have hu := h.tcb u
    unfold TaskCB.core at hu
    simp only [TaskCB.mk.injEq] at hu
    tauto
  have hactive (u : Tsk) : Active (x, s') u ↔ Active (x, s) u := by
    unfold Active
    rw [(hcore u).1]
  refine inv.still h.queue h.objatr (fun u hu =>
    ⟨(hactive u).mpr hu, (hcore u).2.1, (hcore u).2.2.1⟩)
    (fun u hu => Or.inl ((hactive u).mp hu)) (fun u hu => (hactive u).mpr (inv.timed u ?_))
    fun hg u => ?_
  · rwa [← (hcore u).2.2.2.1]
  · rw [(hcore u).1, (hcore u).2.2.2.2]
    exact inv.ready hg u

/-- The queue has the task where its priority puts it. -/
theorem LinkInv.requeue (inv : LinkInv good (x, s)) (hq : s.waitQueue t = some q)
    (h : Active (x, s) t ∨ ¬good ∧ q.1 = .mtx) : LinkInv good (x, s.requeue t q) := by
  unfold Kern.requeue
  have hmem (p : QueueId) (hp : good ∨ p.1 ≠ .mtx) (u : Tsk) :
      u ∈ (s.setQueue q (gcbChangePriority s.pri t (s.queue q))).queue p ↔ u ∈ s.queue p := by
    by_cases hpq : p = q
    · subst hpq
      rw [setQueue_self]
      have hactive : Active (x, s) t := h.resolve_right fun h => hp.elim h.1 (absurd h.2)
      exact (gcbChangePriority_perm _ (inv.linked t p hactive hq)).mem_iff
    · rw [setQueue_of_ne hpq]
  refine ⟨fun u p hu hup => ?_, fun u p hg hup => inv.waits u p hg ((hmem p hg u).mp hup),
    fun p hg => ?_, inv.registered, inv.timed, inv.ready⟩
  · by_cases hpq : p = q
    · subst hpq
      have hold := inv.linked u p hu hup
      change u ∈ (s.setQueue p _).queue p
      rw [setQueue_self]
      refine (queueInsertTpri_perm _ _ _).mem_iff.mpr ?_
      by_cases hut : u = t
      · exact List.mem_cons.mpr (Or.inl hut)
      · exact List.mem_cons_of_mem t ((List.mem_erase_of_ne hut).mpr hold)
    · change u ∈ (s.setQueue q _).queue p
      rw [setQueue_of_ne hpq]
      exact inv.linked u p hu hup
  · change ((s.setQueue q _).queue p).Nodup
    by_cases hpq : p = q
    · subst hpq
      rw [setQueue_self]
      have hactive : Active (x, s) t := h.resolve_right fun h => hg.elim h.1 (absurd h.2)
      exact (gcbChangePriority_perm _ (inv.linked t p hactive hq)).nodup_iff.mpr (inv.nodup p hg)
    · rw [setQueue_of_ne hpq]
      exact inv.nodup p hg

theorem LinkInv.touch (inv : LinkInv good (x, s)) (t : Tsk) : LinkInv good (x, s.touch t) :=
  ⟨inv.linked, inv.waits, inv.nodup, inv.registered, inv.timed, inv.ready⟩

theorem LinkInv.note (inv : LinkInv good (x, s)) (e : KernEvent) : LinkInv good (x, s.note e) :=
  ⟨inv.linked, inv.waits, inv.nodup, inv.registered, inv.timed, inv.ready⟩

theorem LinkInv.priority (inv : LinkInv good (x, s)) (p : ℕ)
    (h : (s.tcb t).state.isWait → some t = x → ¬good ∧ (s.tcb t).wspec = .mtxInherit) :
    LinkInv good (x, s.reprioritize t p) := by
  have hactive : Active (x, s.upd t fun c => { c with priority := p }) t ↔ Active (x, s) t := by
    simp [Active]
  have hnew : LinkInv good (x, (s.upd t fun c => { c with priority := p }).touch t) :=
    (inv.upd (fun hu => ⟨hactive.mpr hu, rfl, rfl⟩) (fun hu => Or.inl (hactive.mp hu))
      (fun hu => hactive.mpr (inv.timed t hu)) (fun _ _ => Iff.rfl) fun hg =>
        inv.ready hg t).touch t
  unfold reprioritize
  dsimp only
  split_ifs with hw
  · split
    · exact hnew
    · next q hq =>
      refine hnew.requeue hq ?_
      by_cases hx : some t = x
      · right
        rw [touch_tcb, upd_self] at hw
        obtain ⟨hg, hspec⟩ := h hw.1 hx
        have hkind := (waitQueue_eq hq).1
        rw [touch_tcb, upd_self] at hkind
        dsimp only at hkind
        rw [hspec] at hkind
        exact ⟨hg, (Option.some.inj hkind).symm⟩
      · exact Or.inl ⟨hw.1, hx⟩
  · exact hnew

theorem LinkInv.not_ready (inv : LinkInv good (x, s)) (hg : good)
    (hw : (s.tcb t).state ≠ .ready ∨ some t = x) :
    (s.tcb t).ready = false := by
  refine Bool.eq_false_of_not_eq_true fun hr => ?_
  obtain ⟨hstate, hx⟩ := (inv.ready hg t).mp hr
  exact hw.elim (fun h => h hstate) hx

theorem isWait_ne_ready (hw : (s.tcb t).state.isWait) : (s.tcb t).state ≠ .ready := by
  intro h
  rw [h] at hw
  cases hw

theorem LinkInv.cancel (inv : LinkInv good (none, s)) (hw : (s.tcb t).state.isWait) :
    LinkInv good (some t, s.waitCancel t) := by
  refine inv.leave (fun _ => rfl) rfl (fun h => absurd rfl h.2) (by simp [waitCancel])
    (fun u hu => ?_)
    (fun u hu => iff_of_false (fun h => hu (Option.some.inj h)) (Option.some_ne_none u))
    fun hg => ?_
  · rw [waitCancel, queRemove_tcb, upd_of_ne hu]
  · refine iff_of_false ?_ fun h => h.2 rfl
    simpa [waitCancel] using inv.not_ready hg (.inl (isWait_ne_ready hw))

/-- The task control block after the task entered a wait. -/
def TaskCB.entered (c : TaskCB) (w : WaitSpec) (wid : ID) (timed : Bool) (atr : ℕ) : TaskCB :=
  { c with
    wspec := w
    wid := wid
    state := if c.state = .ready then .wait else if c.state = .suspend then .waitsus else c.state
    ready := if c.state = .ready then false else c.ready
    nodiswai := atr &&& TA_NODISWAI ≠ 0
    timed := timed }

theorem entered_isWait {c : TaskCB} (h : c.state = .ready ∨ c.state = .suspend) {w : WaitSpec}
    {wid : ID} {timed : Bool} {atr : ℕ} : (c.entered w wid timed atr).state.isWait := by
  rcases h with h | h <;> simp [TaskCB.entered, h, TaskState.isWait]

theorem gcbMakeWait_self (s : Kern) (t : Tsk) (k : WaitKind) (id : ID) (atr : ℕ) (tmout : ℤ) :
    (s.gcbMakeWait t k id atr tmout).tcb t = (s.tcb t).entered (k.wspec atr) id (tmout ≠
      TMO_FEVR) atr := by
  simp [Kern.gcbMakeWait, Kern.setWait, Kern.makeWait, Kern.enterWait, Kern.enqueue, TaskCB.entered]

theorem gcbMakeWait_of_ne (h : u ≠ t) (k : WaitKind) (id : ID) (atr : ℕ) (tmout : ℤ) :
    (s.gcbMakeWait t k id atr tmout).tcb u = s.tcb u := by
  simp [Kern.gcbMakeWait, Kern.setWait, Kern.makeWait, Kern.enterWait, Kern.enqueue, upd_of_ne h]

theorem waitAlone_self (s : Kern) (t : Tsk) (w : WaitSpec) (timed : Bool) (atr : ℕ) :
    (s.waitAlone t w timed atr).tcb t = (s.tcb t).entered w 0 timed atr := by
  simp [Kern.waitAlone, Kern.setWait, Kern.enterWait, TaskCB.entered]

theorem waitAlone_of_ne (h : u ≠ t) (w : WaitSpec) (timed : Bool) (atr : ℕ) :
    (s.waitAlone t w timed atr).tcb u = s.tcb u := by
  simp [Kern.waitAlone, Kern.setWait, Kern.enterWait, upd_of_ne h]

theorem enqueue_perm (pri : Tsk → ℕ) (tpri : Bool) (l : List Tsk) :
    (if tpri then queueInsertTpri pri t l else l ++ [t]).Perm (t :: l) := by
  split_ifs
  · exact queueInsertTpri_perm pri t l
  · exact List.perm_append_singleton t l

theorem LinkInv.entered_ready (inv : LinkInv good (none, s)) (hg : good) {w : WaitSpec} {wid : ID}
    {timed : Bool} {atr : ℕ} : ((s.tcb t).entered w wid timed atr).ready = false := by
  unfold TaskCB.entered
  dsimp only
  split_ifs with h
  · rfl
  · exact inv.not_ready hg (.inl h)

theorem Kern.Runs.not_active (h : s.Runs t) : ¬Active (x, s) t := fun hw => by
  have := hw.1
  rw [h.not_isWait] at this
  cases this

theorem LinkInv.enter (inv : LinkInv good (none, s)) {k : WaitKind} {id : ID} {atr : ℕ} (tmout : ℤ)
    (runs : s.Runs t) (hatr : s.objatr (k.obj, id) = some atr) :
    LinkInv good (none, s.gcbMakeWait t k id atr tmout) := by
  have hself := gcbMakeWait_self s t k id atr tmout
  refine inv.join (t := t) (q := (k, id)) (fun h => absurd h runs.not_active)
    (enqueue_perm _ _ _) rfl rfl
    ⟨?_, nofun⟩ ?_ ⟨atr, hatr, ?_⟩ (fun u hu => gcbMakeWait_of_ne hu ..) fun hg => ?_
  · dsimp only
    rw [hself]
    exact entered_isWait runs
  · unfold waitQueue
    rw [hself]
    dsimp only [TaskCB.entered]
    rw [wspec_kind]
    rfl
  · rw [hself]
    rfl
  · rw [hself]
    exact inv.entered_ready hg

theorem LinkInv.alone (inv : LinkInv good (none, s)) {w : WaitSpec} (timed : Bool) (atr : ℕ)
    (runs : s.Runs t) (hw : w.kind = none) : LinkInv good (none, s.waitAlone t w timed atr) := by
  have hself := waitAlone_self s t w timed atr
  have hactive : Active (none, s.waitAlone t w timed atr) t := by
    refine ⟨?_, nofun⟩
    dsimp only
    rw [hself]
    exact entered_isWait runs
  have hother (u : Tsk) (hu : u ≠ t) : (s.waitAlone t w timed atr).tcb u = s.tcb u :=
    waitAlone_of_ne hu ..
  refine inv.still rfl rfl (fun u hu => ?_) (fun u hu => ?_) (fun u hu => ?_) fun hg u => ?_
  · have hut : u ≠ t := fun e => runs.not_active (e ▸ hu)
    unfold Active
    dsimp only
    rw [hother u hut]
    exact ⟨hu, rfl, rfl⟩
  · by_cases hut : u = t
    · right
      rw [waitQueue_eq_none, hut, hself]
      exact hw
    · left
      unfold Active at hu ⊢
      dsimp only at hu ⊢
      rwa [hother u hut] at hu
  · by_cases hut : u = t
    · exact hut ▸ hactive
    · rw [hother u hut] at hu
      have hold := inv.timed u hu
      unfold Active at hold ⊢
      dsimp only at hold ⊢
      rwa [hother u hut]
  · by_cases hut : u = t
    · subst hut
      refine iff_of_false ?_ fun h => isWait_ne_ready hactive.1 h.1
      rw [hself]
      simpa using inv.entered_ready hg
    · rw [hother u hut]
      exact inv.ready hg u

theorem LinkInv.rdvatr (inv : LinkInv good (x, s)) (t : Tsk) (atr : ℕ) :
    LinkInv good (x, s.toRdv t atr) :=
  ⟨inv.linked, inv.waits, inv.nodup, inv.registered, inv.timed, inv.ready⟩

theorem LinkInv.accept (inv : LinkInv good (none, s)) (u : Tsk) :
    LinkInv good (none, (s.waitCancel u).setWait u .rdv 0) := by
  refine inv.leave (t := u) (fun _ => rfl) rfl (fun _ => ?_) (by simp [setWait, waitCancel])
    (fun v hv => ?_)
    (fun _ _ => Iff.rfl) fun hg => ?_
  · rw [waitQueue_eq_none]
    simp [setWait, waitCancel, WaitSpec.kind]
  · rw [setWait, upd_of_ne hv, waitCancel, queRemove_tcb, upd_of_ne hv]
  · simpa [setWait, waitCancel] using inv.ready hg u

theorem LinkInv.forward (inv : LinkInv good (none, s)) {id : ID} {atr : ℕ}
    (hw : (s.tcb u).state.isWait) (hrdv : (s.tcb u).wspec = .rdv)
    (hatr : s.objatr (.por, id) = some atr) :
    LinkInv good (none, s.toCal u id atr) := by
  refine inv.join (t := u) (q := (.cal, id)) (fun _ => ?_) (enqueue_perm _ _ _) rfl rfl ⟨?_, nofun⟩
    ?_ ⟨atr, hatr, ?_⟩
    (fun v hv => ?_) fun hg => ?_
  · rw [waitQueue_eq_none, hrdv]
    rfl
  · simpa [toCal, setWait, enqueue] using hw
  · simp [waitQueue, toCal, setWait, enqueue]
  · simp [toCal, setWait, enqueue]
  · simp [toCal, setWait, enqueue, upd_of_ne hv]
  · simpa [toCal, setWait, enqueue] using inv.not_ready hg (.inl (isWait_ne_ready hw))

/-! Suspension writes one control block. -/

def TaskCB.suspended (c : TaskCB) : TaskCB :=
  { c with
    suscnt := c.suscnt + 1
    state := if c.state = .ready then .suspend else if c.state = .wait then .waitsus else c.state
    ready := if c.state = .ready then false else c.ready }

/-- The last suspension of the task is taken back. -/
def TaskCB.unsuspended (c : TaskCB) : TaskCB :=
  { c with
    state := if c.state = .suspend then .ready else .wait
    ready := if c.state = .suspend then true else c.ready }

def TaskCB.resumed (c : TaskCB) : TaskCB :=
  if c.suscnt - 1 = 0 then { c with suscnt := c.suscnt - 1 }.unsuspended
  else { c with suscnt := c.suscnt - 1 }

def TaskCB.forced (c : TaskCB) : TaskCB := { c with suscnt := 0 }.unsuspended

theorem suspendTask_eq (s : Kern) (t : Tsk) :
    s.suspendTask t = (s.upd t TaskCB.suspended).note (.suspended t) := by
  unfold suspendTask
  dsimp only
  by_cases hr : (s.tcb t).state = .ready
  · rw [if_pos hr]
    simp [Kern.upd, Kern.note, makeNonReady, TaskCB.suspended, hr]
  · rw [if_neg hr]
    by_cases hw : (s.tcb t).state = .wait
    · rw [if_pos hw]
      simp [Kern.upd, Kern.note, TaskCB.suspended, hw]
    · rw [if_neg hw]
      simp [Kern.upd, Kern.note, TaskCB.suspended, hr, hw]

theorem unsuspend_eq (s : Kern) (t : Tsk) : s.unsuspend t = s.upd t TaskCB.unsuspended := by
  unfold unsuspend
  split_ifs with h
  · simp [makeReady, Kern.upd, TaskCB.unsuspended, h]
  · simp [Kern.upd, TaskCB.unsuspended, h]

theorem resumeTask_eq (s : Kern) (t : Tsk) :
    s.resumeTask t = (s.upd t TaskCB.resumed).note (.resumed t) := by
  unfold resumeTask
  dsimp only
  rw [note_tcb, upd_self]
  by_cases h : (s.tcb t).suscnt - 1 = 0
  · rw [if_pos h, unsuspend_eq]
    simp [Kern.upd, Kern.note, TaskCB.resumed, h]
  · rw [if_neg h]
    simp [Kern.upd, Kern.note, TaskCB.resumed, h]

theorem forceTask_eq (s : Kern) (t : Tsk) :
    s.forceTask t = (s.upd t TaskCB.forced).note (.forced t) := by
  unfold forceTask
  rw [unsuspend_eq]
  simp [Kern.upd, Kern.note, TaskCB.forced]

/-- What suspension leaves as it is. -/
structure TaskCB.Held (c c' : TaskCB) : Prop where
  isWait : c'.state.isWait = c.state.isWait
  wspec : c'.wspec = c.wspec
  wid : c'.wid = c.wid
  timed : c'.timed = c.timed
  ready : (c.ready = true ↔ c.state = .ready) → (c'.ready = true ↔ c'.state = .ready)

theorem TaskCB.suspended_held (c : TaskCB) : c.Held c.suspended := by
  unfold TaskCB.suspended
  constructor <;> dsimp only <;> cases c.state <;> simp [TaskState.isWait]

theorem TaskCB.unsuspended_held {c : TaskCB} (h : c.state = .suspend ∨ c.state = .waitsus) :
    c.Held c.unsuspended := by
  unfold TaskCB.unsuspended
  rcases h with h | h <;> constructor <;> simp [h, TaskState.isWait]

theorem TaskCB.resumed_held {c : TaskCB} (h : c.state = .suspend ∨ c.state = .waitsus) :
    c.Held c.resumed := by
  unfold TaskCB.resumed
  split_ifs
  · obtain ⟨h₁, h₂, h₃, h₄, h₅⟩ := unsuspended_held (c := { c with suscnt := c.suscnt - 1 }) h
    exact ⟨h₁, h₂, h₃, h₄, h₅⟩
  · exact ⟨rfl, rfl, rfl, rfl, id⟩

theorem TaskCB.forced_held {c : TaskCB} (h : c.state = .suspend ∨ c.state = .waitsus) :
    c.Held c.forced := by
  obtain ⟨h₁, h₂, h₃, h₄, h₅⟩ := unsuspended_held (c := { c with suscnt := 0 }) h
  exact ⟨h₁, h₂, h₃, h₄, h₅⟩

theorem LinkInv.held (inv : LinkInv good (none, s)) {f : TaskCB → TaskCB}
    (h : (s.tcb t).Held (f (s.tcb t))) :
    LinkInv good (none, s.upd t f) := by
  have hactive : Active (none, s.upd t f) t ↔ Active (none, s) t := by
    unfold Active
    dsimp only
    rw [upd_self, h.isWait]
  refine inv.upd (fun hu => ⟨hactive.mpr hu, h.wspec, h.wid⟩) (fun hu => Or.inl (hactive.mp hu))
    (fun hu => hactive.mpr (inv.timed t (h.timed ▸ hu))) (fun _ _ => Iff.rfl) fun hg => ?_
  have hready := inv.ready hg t
  dsimp only at hready
  rw [and_iff_left (Option.some_ne_none t)] at hready ⊢
  exact h.ready hready

/-- A step on a task that does not wait before or after it. -/
theorem LinkInv.idle (inv : LinkInv good (x, s)) {f : TaskCB → TaskCB} (hold : ¬Active (x, s) t)
    (hnew : ¬Active (x', s.upd t f) t) (htimed : (f (s.tcb t)).timed = (s.tcb t).timed)
    (haway : ∀ u, u ≠ t → (some u = x' ↔ some u = x))
    (ready : good → ((f (s.tcb t)).ready = true ↔ (f (s.tcb t)).state = .ready ∧ some t ≠ x')) :
    LinkInv good (x', s.upd t f) :=
  inv.upd (fun hu => absurd hu hold) (fun hu => absurd hu hnew)
    (fun hu => absurd (inv.timed t (htimed ▸ hu)) hold) haway ready

theorem not_active_of_state (st : TaskState) (h : (s.tcb t).state = st) (hst : st.isWait = false) :
    ¬Active (x, s) t := fun hw => by
  have hwait := hw.1
  dsimp only at hwait
  rw [h, hst] at hwait
  cases hwait

theorem LinkInv.register (inv : LinkInv good (none, s)) {k : ObjKind} {id : ID} (atr : ℕ)
    (h : s.objatr (k, id) = none) : LinkInv good (none, s.register k id atr) := by
  have hnot {u : Tsk} {q : QueueId} (hu : Active (none, s) u) (hq : s.waitQueue u = some q) :
      (q.1.obj, q.2) ≠ (k, id) := by
    intro e
    obtain ⟨atr', hatr, -⟩ := inv.registered u q hu hq
    rw [e, h] at hatr
    cases hatr
  have hqueue (q : QueueId) (hq : (q.1.obj, q.2) ≠ (k, id)) :
      (s.register k id atr).queue q = s.queue q :=
    if_neg fun e => hq (Prod.ext e.1 e.2)
  have hsub (q : QueueId) : (s.register k id atr).queue q = [] ∨
      (s.register k id atr).queue q = s.queue q := by
    by_cases hq : q.1.obj = k ∧ q.2 = id
    · exact Or.inl (if_pos hq)
    · exact Or.inr (if_neg hq)
  refine ⟨fun u q hu hq => ?_, fun u q hg hmem => ?_, fun q hg => ?_, fun u q hu hq => ?_,
    inv.timed, inv.ready⟩
  · change u ∈ (s.register k id atr).queue q
    rw [hqueue q (hnot hu hq)]
    exact inv.linked u q hu hq
  · change u ∈ (s.register k id atr).queue q at hmem
    rcases hsub q with he | he
    · rw [he] at hmem
      cases hmem
    · exact inv.waits u q hg (he ▸ hmem)
  · change ((s.register k id atr).queue q).Nodup
    rcases hsub q with he | he
    · rw [he]
      exact List.nodup_nil
    · exact he ▸ inv.nodup q hg
  · obtain ⟨atr', hatr, hspec⟩ := inv.registered u q hu hq
    exact ⟨atr', (Function.update_of_ne (hnot hu hq) _ _).trans hatr, hspec⟩

theorem LinkInv.unregister (inv : LinkInv good (none, s)) {k : ObjKind} {id : ID}
    (h : ∀ w : WaitKind, w.obj = k → s.queue (w, id) = []) :
    LinkInv good (none, s.unregister k id) := by
  refine ⟨inv.linked, inv.waits, inv.nodup, fun u q hu hq => ?_, inv.timed, inv.ready⟩
  have hmem := inv.linked u q hu hq
  obtain ⟨atr, hatr, hspec⟩ := inv.registered u q hu hq
  refine ⟨atr, (Function.update_of_ne ?_ _ _).trans hatr, hspec⟩
  intro e
  obtain ⟨hk, rfl⟩ := Prod.mk.inj e
  change u ∈ s.queue (q.1, q.2) at hmem
  rw [h q.1 hk] at hmem
  cases hmem

theorem LinkInv.step (inv : LinkInv good a) (h : KernStep good a b) : LinkInv good b := by
  cases h with
  | release t h => exact inv.release h
  | priority t p h => exact inv.priority p h
  | same h => exact inv.same h
  | mask t m h =>
    refine inv.upd (fun hu => ⟨by simpa [Active] using hu, rfl, rfl⟩) (fun hu =>
      Or.inl (by simpa [Active] using hu))
      (fun hu => by simpa [Active] using inv.timed t hu) (fun _ _ => Iff.rfl) fun hg =>
        inv.ready hg t
  | nonReady t h =>
    exact inv.idle (not_active_of_state _ h rfl) (fun hu => hu.2 rfl) rfl
      (fun u hu => iff_of_false (fun e => hu (Option.some.inj e)) (Option.some_ne_none u))
      fun _ => iff_of_false Bool.false_ne_true fun e => e.2 rfl
  | cancel t h => exact inv.cancel h
  | stay t h =>
    have hold : ¬Active (none, _) t := not_active_of_state _ h rfl
    have hactive (u : Tsk) : Active (some t, _) u ↔ Active (none, _) u :=
      ⟨fun hu => ⟨hu.1, Option.some_ne_none u⟩, fun hu =>
        ⟨hu.1, fun e => hold (Option.some.inj e ▸ hu)⟩⟩
    refine inv.still rfl rfl (fun u hu => ⟨(hactive u).mpr hu, rfl, rfl⟩) (fun u hu =>
      Or.inl ((hactive u).mp hu))
      (fun u hu => (hactive u).mpr (inv.timed u hu)) fun hg u => ?_
    rw [inv.ready hg u]
    refine and_congr_right fun hu => iff_of_true (Option.some_ne_none u) fun e => ?_
    rw [Option.some.inj e, h] at hu
    cases hu
  | dormant t =>
    exact inv.idle (fun hu => hu.2 rfl) (not_active_of_state .dormant (by simp) rfl) rfl
      (fun u hu => iff_of_false (Option.some_ne_none u) fun e => hu (Option.some.inj e))
      fun hg => iff_of_false (by simpa using inv.not_ready hg (.inr rfl)) fun e =>
        TaskState.noConfusion e.1
  | gone t =>
    exact inv.idle (fun hu => hu.2 rfl) (not_active_of_state .nonexist (by simp) rfl) rfl
      (fun u hu => iff_of_false (Option.some_ne_none u) fun e => hu (Option.some.inj e))
      fun hg => iff_of_false (by simpa using inv.not_ready hg (.inr rfl)) fun e =>
        TaskState.noConfusion e.1
  | create t p h =>
    rw [makeDormant, upd_upd]
    exact inv.idle (not_active_of_state _ h rfl) (not_active_of_state .dormant (by simp) rfl) rfl
      (fun _ _ => Iff.rfl)
      fun hg => iff_of_false (by simpa using inv.not_ready hg (.inl (by simp [h]))) fun e =>
        TaskState.noConfusion e.1
  | delete t h =>
    exact inv.idle (not_active_of_state _ h rfl) (not_active_of_state .nonexist (by simp) rfl) rfl
      (fun _ _ => Iff.rfl)
      fun hg => iff_of_false (by simpa using inv.not_ready hg (.inl (by simp [h]))) fun e =>
        TaskState.noConfusion e.1
  | start t h =>
    refine LinkInv.note ?_ _
    exact inv.idle (not_active_of_state _ h rfl) (not_active_of_state .ready (by simp) rfl) rfl
      (fun _ _ => Iff.rfl) fun _ => iff_of_true rfl ⟨rfl, Option.some_ne_none t⟩
  | register k id atr h => exact inv.register atr h
  | unregister k id h => exact inv.unregister h
  | enter t k id atr tmout runs hatr hmask => exact inv.enter tmout runs hatr
  | alone t w timed runs hw hrdv hmask => exact inv.alone timed 0 runs hw
  | rdv t atr runs hmask => exact (inv.alone false atr runs rfl).rdvatr t atr
  | accept u id atr hu hatr hmask => exact (inv.accept u).rdvatr u atr
  | forward u id atr hw hrdv hatr hmask => exact inv.forward hw hrdv hatr
  | newRdv u atr hw hrdv hmask => exact (inv.held ⟨rfl, rfl, rfl, rfl, id⟩).rdvatr u atr
  | suspend t h h' hmax =>
    rw [suspendTask_eq]
    exact (inv.held (TaskCB.suspended_held _)).note _
  | resume t h =>
    rw [resumeTask_eq]
    exact (inv.held (TaskCB.resumed_held h)).note _
  | force t h =>
    rw [forceTask_eq]
    exact (inv.held (TaskCB.forced_held h)).note _
  | sleep t h => exact (inv.held ⟨rfl, rfl, rfl, rfl, id⟩).note _
  | wake t h hd => exact (inv.held ⟨rfl, rfl, rfl, rfl, id⟩).note _
  | awake t => exact (inv.note _).note _
  | clear t => exact (inv.held ⟨rfl, rfl, rfl, rfl, id⟩).note _

theorem LinkInv.steps (inv : LinkInv good a) (h : KernSteps good a b) : LinkInv good b := by
  induction h with
  | refl => exact inv
  | tail _ h ih => exact ih.step h

theorem Kern.Initial.link (h : s.Initial) : LinkInv good (none, s) := by
  have hactive (u : Tsk) : ¬Active (none, s) u := not_active_of_state _ (h.state u) rfl
  have hempty (q : QueueId) : s.queue q = [] := h.queue q
  refine ⟨fun u q hu => absurd hu (hactive u), fun u q _ hmem => ?_, fun q _ => ?_, fun u q hu =>
    absurd hu (hactive u), fun u hu => ?_, fun _ u => ?_⟩
  · change u ∈ s.queue q at hmem
    rw [hempty] at hmem
    cases hmem
  · change (s.queue q).Nodup
    rw [hempty]
    exact List.nodup_nil
  · change (s.tcb u).timed = true at hu
    rw [h.timed] at hu
    cases hu
  · change (s.tcb u).ready = true ↔ (s.tcb u).state = .ready ∧ _
    rw [h.ready, h.state]
    exact iff_of_false Bool.false_ne_true fun e => TaskState.noConfusion e.1

/-! ## Each call -/

/-- A task in execution stays so while the priority of another task changes. -/
theorem LinkInv.calm (inv : LinkInv good (none, s)) (runs : s.Runs t) (h : Calm t s s') :
    s'.Runs t ∧ (s'.tcb t).waitmask = (s.tcb t).waitmask := by
  obtain ⟨hstate, hmask, -⟩ := h.idle runs.not_isWait fun q hq =>
    inv.not_mem (fun hw => absurd hw runs.not_active) (Or.inr hq)
  exact ⟨by rwa [Kern.Runs, hstate], hmask⟩

theorem LinkInv.locMtx_steps (inv : LinkInv good (none, s)) (h : Hook) (id : ID) (tmout : ℤ)
    (chk : ER) (runs : s.Runs t) :
    KernSteps good (none, s) (none, (s.locMtx t h id tmout chk).1) := by
  refine onObj_steps fun atr hatr => ?_
  split
  · exact .refl
  split
  · exact .refl
  split
  · exact .refl
  · next hmask =>
    split
    · exact takeMutex_steps h id atr
    · next mtxtsk _ =>
      split_ifs
      · exact .refl
      · have hcalm : Calm t s (s.raiseHolder t h mtxtsk atr) := by
          unfold raiseHolder
          split_ifs
          · exact .chain h.served h.depth (s, some (mtxtsk, (s.tcb t).priority))
          · exact .refl t s
        obtain ⟨runs', hmask'⟩ := inv.calm runs hcalm
        refine (raiseHolder_steps h mtxtsk atr).tail (.enter t .mtx id atr tmout runs' ?_ ?_)
        · rw [hcalm.objatr]
          exact hatr
        · rw [hmask']
          exact Bool.eq_false_of_not_eq_true hmask

/-- The termination of a waiting task does not give it a priority: the hook of its wait does not
come back to it along the holders of the mutexes. -/
def KernOp.Straight (s : Kern) : KernOp → Prop
  | .terTsk t h chk => chk = E_OK → (s.tcb t).state.isWait → t ∉ (s.waitCancel t).hookTasks t h
  | _ => True

theorem LinkInv.exec_steps (inv : LinkInv good (none, s)) {op : KernOp}
    (runs : ∀ t ∈ op.caller, s.Runs t) (fits : op.Fits s) (straight : good → op.Straight s) :
    KernSteps good (none, s) (none, (op.exec s).1) := by
  cases op with
  | creTsk t ipriority chk => exact creTsk_steps t ipriority chk
  | delTsk t chk => exact delTsk_steps t chk
  | staTsk t chk => exact staTsk_steps t chk
  | extTsk t h => exact extTsk_steps h (runs t rfl)
  | exdTsk t h => exact exdTsk_steps h (runs t rfl)
  | terTsk t h chk => exact terTsk_steps t h chk straight
  | chgPri t h tskpri chk => exact chgPri_steps t h tskpri chk
  | relWai t h chk => exact relWai_steps t h chk
  | disWai t h waitmask chk => exact disWai_steps t h waitmask chk
  | enaWai t chk => exact enaWai_steps t chk
  | svcMask t waitmask => exact svcMask_steps waitmask (runs t rfl)
  | susTsk t chk => exact susTsk_steps t chk
  | rsmTsk t chk => exact rsmTsk_steps t chk
  | frsmTsk t chk => exact frsmTsk_steps t chk
  | slpTsk t tmout chk => exact slpTsk_steps tmout chk (runs t rfl)
  | wupTsk t chk => exact wupTsk_steps t chk
  | canWup t chk => exact canWup_steps t chk
  | waiTev t waiptn tmout chk => exact waiTev_steps waiptn tmout chk (runs t rfl)
  | sigTev t tskevt chk => exact sigTev_steps t tskevt chk
  | dlyTsk t dlytim chk => exact dlyTsk_steps dlytim chk (runs t rfl)
  | creObj k id atr chk => exact creObj_steps k id atr chk
  | creMtx id atr ceilpri chk => exact creMtx_steps id atr ceilpri chk
  | delObj k id chk => exact delObj_steps k id chk
  | delMtx h id chk => exact delMtx_steps h id chk
  | waiSem t id tmout got chk => exact waiObj_steps (runs t rfl)
  | waiFlg t id tmout got chk => exact waiObj_steps (runs t rfl)
  | rcvMbx t id tmout got chk => exact waiObj_steps (runs t rfl)
  | getMpf t id tmout got chk => exact waiObj_steps (runs t rfl)
  | getMpl t id tmout got chk => exact waiObj_steps (runs t rfl)
  | sigSem id served chk => exact signal_steps .sem id served chk
  | setFlg id served chk => exact signal_steps .flg id served chk
  | sndMbx id served chk => exact signal_steps .mbx id served chk
  | relMpf id served chk => exact signal_steps .mpf id served chk
  | relMpl id served chk => exact signal_steps .mpl id served chk
  | sndMbf caller id tmout stored chk =>
    refine sndMbf_steps caller id tmout stored chk fun t ht => runs t ?_
    cases ht
    rfl
  | rcvMbf t h id tmout read chk => exact rcvMbf_steps h id tmout read chk (runs t rfl)
  | calPor t id tmout found chk => exact calPor_steps id tmout found chk (runs t rfl) fits
  | acpPor t h id tmout found chk => exact acpPor_steps h id tmout found chk (runs t rfl) fits
  | fwdPor h id u found chk =>
    refine fwdPor_steps h id u found chk fits fun hrdv v hv e => ?_
    have hqueue := (inv.waits v (.acp, id) (Or.inr WaitKind.noConfusion) (fits v hv)).2
    rw [← e, waitQueue_eq_none.mpr (by rw [hrdv]; rfl)] at hqueue
    cases hqueue
  | rplRdv u chk => exact rplRdv_steps u chk
  | locMtx t h id tmout chk => exact inv.locMtx_steps h id tmout chk (runs t rfl)
  | unlMtx t h id chk => exact unlMtx_steps h id chk
  | timeout t h => exact waitReleaseNg_steps t h (inv.timed t fits).1

theorem KernRun.link {ok : Kern → KernOp → Prop} (run : KernRun ok s)
    (straight : good → ∀ s op, ok s op → op.Straight s) : LinkInv good (none, s) := by
  induction run with
  | init s initial => exact initial.link
  | step run op runs fits hok ih => exact ih.steps (ih.exec_steps runs fits fun hg =>
      straight hg _ _ hok)

/-! ## Runs given by the list of their calls -/

instance (s : Kern) (t : Tsk) : Decidable (s.Runs t) := inferInstanceAs (Decidable (_ ∨ _))

instance (s : Kern) (op : KernOp) : Decidable (op.Fits s) := by
  cases op <;> dsimp only [KernOp.Fits] <;> infer_instance

def execAll : List KernOp → Kern → Kern
  | [], s => s
  | op :: ops, s => execAll ops (op.exec s).1

/-- Every call is made by a task in execution, with parameters that fit, and is `ok`. -/
def LegalAll (ok : Kern → KernOp → Prop) : List KernOp → Kern → Prop
  | [], _ => True
  | op :: ops, s =>
    ((∀ t ∈ op.caller, s.Runs t) ∧ op.Fits s ∧ ok s op) ∧ LegalAll ok ops (op.exec s).1

instance instDecidableLegalAll (ok : Kern → KernOp → Prop) [∀ s op, Decidable (ok s op)] :
    (ops : List KernOp) → (s : Kern) → Decidable (LegalAll ok ops s)
  | [], _ => isTrue trivial
  | op :: ops, s =>
    have := instDecidableLegalAll ok ops (op.exec s).1
    inferInstanceAs (Decidable (_ ∧ _))

instance (s : Kern) (op : KernOp) : Decidable (op.Straight s) := by
  cases op <;> dsimp only [KernOp.Straight] <;> infer_instance

/-- No task and no object exists. -/
def Kern.boot : Kern where
  tcb _ := ⟨.nonexist, 0, 0, 0, .slp, 0, false, 0, 0, 0, 0, [], false, false⟩
  objatr _ := none
  queue _ := []
  ceilpri _ := 0
  mtxtsk _ := none
  stamp _ := 0
  clock := 0
  rdvatr _ := 0
  log := []

theorem boot_initial : boot.Initial :=
  ⟨fun _ => rfl, fun _ => rfl, fun _ => rfl, fun _ => rfl, fun _ => rfl, rfl⟩

theorem KernRun.all {ok : Kern → KernOp → Prop} (run : KernRun ok s) {ops : List KernOp}
    (legal : LegalAll ok ops s) :
    KernRun ok (execAll ops s) := by
  induction ops generalizing s with
  | nil => exact run
  | cons op ops ih => exact ih (run.step op legal.1.1 legal.1.2.1 legal.1.2.2) legal.2

/-! ## What the queues hold -/

structure QueuesRight (s : Kern) : Prop where
  idle : ∀ t, (s.tcb t).state.isWait = false → (∀ q, t ∉ s.queue q) ∧ (s.tcb t).timed = false
  waiting : ∀ t q, t ∈ s.queue q → s.waitQueue t = some q ∧ (s.queue q).count t = 1
  /-- The ready queue has the ready tasks. -/
  ready : ∀ t, (s.tcb t).ready = true ↔ (s.tcb t).state = .ready

/-- A task is in no queue but the one it waits in, in every run in which no termination of a waiting
task gives it a priority. -/
theorem kernRun_queuesRight (run : KernRun (fun s op => op.Straight s) s) : QueuesRight s := by
  have link : LinkInv True (none, s) := run.link fun _ _ _ h => h
  refine ⟨fun t ht => ⟨fun q hq => ?_, ?_⟩, fun t q hq => ⟨(link.waits t q (Or.inl trivial) hq).2,
    ?_⟩, fun t => ?_⟩
  · exact absurd (link.waits t q (Or.inl trivial) hq).1.1 (by simp [ht])
  · exact Bool.eq_false_of_not_eq_true fun htimed => absurd (link.timed t htimed).1 (by simp [ht])
  · exact List.count_eq_one_of_mem (link.nodup q (Or.inl trivial)) hq
  · exact (link.ready trivial t).trans (and_iff_left (Option.some_ne_none t))

/-- The task that waits for the mutex is terminated. -/
def terminateRun : List KernOp :=
  [.creTsk 1 10 0, .creTsk 2 5 0, .creMtx 1 TA_INHERIT 0 0, .staTsk 1 0, .staTsk 2 0,
    .locMtx 1 ⟨0, 9⟩ 1 TMO_FEVR 0, .locMtx 2 ⟨0, 9⟩ 1 TMO_FEVR 0, .terTsk 2 ⟨0, 9⟩ 0]

theorem kernRun_queuesRight_terminated :
    ((execAll terminateRun boot).tcb 2).state = .dormant ∧
      ((execAll terminateRun boot).tcb 1).priority = 10 ∧
      QueuesRight (execAll terminateRun boot) :=
  ⟨by decide +kernel, by decide +kernel,
    kernRun_queuesRight ((KernRun.init boot boot_initial).all (by decide +kernel))⟩

/-- Task 1 holds mutex 1 and waits for mutex 2, task 2 the other way round. Task 3 waited for mutex
1 for a while, so that all three had its priority; with task 2 still at this priority task 1 is
terminated. -/
def ghostRun : List KernOp :=
  [.creTsk 1 30 0, .creTsk 2 20 0, .creTsk 3 5 0, .creMtx 1 TA_INHERIT 0 0,
    .creMtx 2 TA_INHERIT 0 0, .staTsk 1 0, .staTsk 2 0, .staTsk 3 0, .locMtx 1 ⟨0, 9⟩ 1 TMO_FEVR 0,
    .locMtx 2 ⟨0, 9⟩ 2 TMO_FEVR 0, .locMtx 2 ⟨0, 9⟩ 1 TMO_FEVR 0, .locMtx 3 ⟨0, 9⟩ 1 1 0,
    .locMtx 1 ⟨0, 9⟩ 2 TMO_FEVR 0, .timeout 3 ⟨0, 9⟩, .terTsk 1 ⟨0, 9⟩ 0]

/-- The dormant task is in the queue of mutex 2. -/
theorem kernRun_queues_wrong : ¬∀ s, KernRun (fun _ _ => True) s → QueuesRight s := by
  intro h
  have run : KernRun (fun _ _ => True) (execAll ghostRun boot) :=
    (KernRun.init boot boot_initial).all (by decide +kernel)
  have hghost : ((execAll ghostRun boot).tcb 1).state = .dormant ∧
      1 ∈ (execAll ghostRun boot).queue (.mtx, 2) := by
    decide +kernel
  exact ((h _ run).idle 1 (by rw [hghost.1]; rfl)).1 _ hghost.2

end SmpTKernel
