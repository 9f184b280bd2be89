import SmpTKernel.KernelCalls
import Mathlib.Logic.Relation

/-!
# What a system call can do, step by step

Every call is a sequence of a few kinds of steps: a task is released, gets a priority, enters a
wait, and so on. Termination leaves a gap between the step that takes the task out of its queues and
the one that makes it dormant; in this gap the task is `away`. What holds of every step holds of
every call.
-/

namespace SmpTKernel

open Relation

/-- The fields the waits depend on. -/
def TaskCB.core (c : TaskCB) : TaskCB :=
  { c with bpriority := 0, ipriority := 0, tskevt := 0, mtxlist := [] }

/-- The task control block after its wait is released. -/
def TaskCB.released (c : TaskCB) : TaskCB :=
  if c.state = .wait then { c with state := .ready, ready := true, timed := false }
  else { c with state := .suspend, timed := false }

namespace Kern

variable {s s' : Kern} {t u : Tsk} {f : TaskCB → TaskCB} {q : QueueId}

/-! ## Fields after the small updates -/

theorem upd_tcb (s : Kern) (t u : Tsk) (f : TaskCB → TaskCB) :
    (s.upd t f).tcb u = if u = t then f (s.tcb t) else s.tcb u := Function.update_apply ..

@[simp] theorem upd_self : (s.upd t f).tcb t = f (s.tcb t) := Function.update_self ..

theorem upd_of_ne (h : u ≠ t) : (s.upd t f).tcb u = s.tcb u := Function.update_of_ne h ..

@[simp] theorem upd_upd (f g : TaskCB → TaskCB) :
    (s.upd t f).upd t g = s.upd t fun c => g (f c) := by
  simp [upd]

@[simp] theorem upd_queue : (s.upd t f).queue = s.queue := rfl
@[simp] theorem upd_objatr : (s.upd t f).objatr = s.objatr := rfl

@[simp] theorem note_tcb (e : KernEvent) : (s.note e).tcb = s.tcb := rfl
@[simp] theorem touch_tcb : (s.touch t).tcb = s.tcb := rfl
@[simp] theorem queRemove_tcb : (s.queRemove t).tcb = s.tcb := rfl
@[simp] theorem setQueue_tcb (l : List Tsk) : (s.setQueue q l).tcb = s.tcb := rfl

@[simp] theorem setQueue_self (l : List Tsk) : (s.setQueue q l).queue q = l :=
  Function.update_self ..

theorem setQueue_of_ne {q' : QueueId} (h : q' ≠ q) (l : List Tsk) :
    (s.setQueue q l).queue q' = s.queue q' :=
  Function.update_of_ne h ..

/-! ## A released task -/

theorem waitRelease_eq (s : Kern) (t : Tsk) :
    s.waitRelease t = (s.upd t TaskCB.released).queRemove t := by
  have hstate : ((s.waitCancel t).tcb t).state = (s.tcb t).state := by simp [waitCancel]
  unfold waitRelease makeNonWait
  rw [hstate]
  by_cases h : (s.tcb t).state = .wait
  · simp [waitCancel, makeReady, queRemove, upd, TaskCB.released, h]
  · simp [waitCancel, queRemove, upd, TaskCB.released, h]

@[simp] theorem waitRelease_self : (s.waitRelease t).tcb t = (s.tcb t).released := by
  rw [waitRelease_eq]
  exact upd_self

theorem waitRelease_of_ne (h : u ≠ t) : (s.waitRelease t).tcb u = s.tcb u := by
  rw [waitRelease_eq]
  exact upd_of_ne h

@[simp] theorem waitRelease_queue (q : QueueId) :
    (s.waitRelease t).queue q = (s.queue q).erase t := by
  rw [waitRelease_eq]
  rfl

@[simp] theorem waitRelease_objatr :
    (s.waitRelease t).objatr = s.objatr := by rw [waitRelease_eq]; rfl
@[simp] theorem waitRelease_rdvatr :
    (s.waitRelease t).rdvatr = s.rdvatr := by rw [waitRelease_eq]; rfl
@[simp] theorem waitRelease_log : (s.waitRelease t).log = s.log := by rw [waitRelease_eq]; rfl

/-! ## Steps -/

/-- The queue that the wait specification and `wid` name. -/
def waitQueue (s : Kern) (t : Tsk) : Option QueueId :=
  (s.tcb t).wspec.kind.map fun k => (k, (s.tcb t).wid)

/-- The priority of the task changes, and with it its place in the queue. -/
def reprioritize (s : Kern) (t : Tsk) (priority : ℕ) : Kern :=
  let s := (s.upd t fun c => { c with priority := priority }).touch t
  if (s.tcb t).state.isWait ∧ (s.tcb t).wspec.ordered then
    match s.waitQueue t with
    | none => s
    | some q => s.requeue t q
  else s

/-- What the waits depend on is the same. -/
structure Same (s s' : Kern) : Prop where
  tcb : ∀ u, (s'.tcb u).core = (s.tcb u).core
  queue : s'.queue = s.queue
  objatr : s'.objatr = s.objatr
  stamp : s'.stamp = s.stamp
  clock : s'.clock = s.clock
  rdvatr : s'.rdvatr = s.rdvatr
  log : s'.log = s.log

end Kern

open Kern

/-- The steps, from a state with the task that is away. With `good`, no priority is given to a
waiting task that is away; otherwise only to one that waits for a mutex with inheritance. -/
inductive KernStep (good : Prop) : Option Tsk × Kern → Option Tsk × Kern → Prop
  | release {x : Option Tsk} {s : Kern} (t : Tsk)
      (h : (∃ q, t ∈ s.queue q) ∨ (s.tcb t).state.isWait ∧ some t ≠ x) :
      KernStep good (x, s) (x, s.waitRelease t)
  | priority {x : Option Tsk} {s : Kern} (t : Tsk) (p : ℕ)
      (h : (s.tcb t).state.isWait → some t = x → ¬good ∧ (s.tcb t).wspec = .mtxInherit) :
      KernStep good (x, s) (x, s.reprioritize t p)
  | same {x : Option Tsk} {s s' : Kern} (h : Same s s') : KernStep good (x, s) (x, s')
  | mask {x : Option Tsk} {s : Kern} (t : Tsk) (m : ℕ)
      (h : (s.tcb t).state.isWait → (s.tcb t).wspec.tskwait &&& m = 0 ∨ (s.tcb t).nodiswai) :
      KernStep good (x, s) (x, s.upd t fun c => { c with waitmask := m })
  -- termination
  | nonReady {s : Kern} (t : Tsk) (h : (s.tcb t).state = .ready) :
      KernStep good (none, s) (some t, s.makeNonReady t)
  | cancel {s : Kern} (t : Tsk) (h : (s.tcb t).state.isWait) :
      KernStep good (none, s) (some t, s.waitCancel t)
  | stay {s : Kern} (t : Tsk) (h : (s.tcb t).state = .suspend) : KernStep good (none, s) (some t, s)
  | dormant {s : Kern} (t : Tsk) : KernStep good (some t, s) (none, s.makeDormant t)
  | gone {s : Kern} (t : Tsk) :
      KernStep good (some t, s) (none, s.upd t fun c => { c with state := .nonexist })
  -- creation, deletion and start
  | create {s : Kern} (t : Tsk) (p : ℕ) (h : (s.tcb t).state = .nonexist) :
      KernStep good (none, s) (none, (s.upd t fun c => { c with ipriority := p }).makeDormant t)
  | delete {s : Kern} (t : Tsk) (h : (s.tcb t).state = .dormant) :
      KernStep good (none, s) (none, s.upd t fun c => { c with state := .nonexist })
  | start {s : Kern} (t : Tsk) (h : (s.tcb t).state = .dormant) :
      KernStep good (none, s) (none, (s.makeReady t).note (.started t))
  | register {s : Kern} (k : ObjKind) (id : ID) (atr : ℕ) (h : s.objatr (k, id) = none) :
      KernStep good (none, s) (none, s.register k id atr)
  | unregister {s : Kern} (k : ObjKind) (id : ID)
      (h : ∀ w : WaitKind, w.obj = k → s.queue (w, id) = []) :
      KernStep good (none, s) (none, s.unregister k id)
  -- waits
  | enter {s : Kern} (t : Tsk) (k : WaitKind) (id : ID) (atr : ℕ) (tmout : ℤ) (runs : s.Runs t)
      (hatr : s.objatr (k.obj, id) = some atr)
      (hmask : isDiswai atr (s.tcb t).waitmask k.tskwait = false) :
      KernStep good (none, s) (none, s.gcbMakeWait t k id atr tmout)
  | alone {s : Kern} (t : Tsk) (w : WaitSpec) (timed : Bool) (runs : s.Runs t) (hw : w.kind = none)
      (hrdv : w ≠ .rdv) (hmask : (s.tcb t).waitmask &&& w.tskwait = 0) :
      KernStep good (none, s) (none, s.waitAlone t w timed 0)
  | rdv {s : Kern} (t : Tsk) (atr : ℕ) (runs : s.Runs t)
      (hmask : isDiswai atr (s.tcb t).waitmask TTW_RDV = false) :
      KernStep good (none, s) (none, (s.waitAlone t .rdv false atr).toRdv t atr)
  | accept {s : Kern} (u : Tsk) (id : ID) (atr : ℕ) (hu : u ∈ s.queue (.cal, id))
      (hatr : s.objatr (.por, id) = some atr)
      (hmask : isDiswai atr (s.tcb u).waitmask TTW_RDV = false) :
      KernStep good (none, s) (none, ((s.waitCancel u).setWait u .rdv 0).toRdv u atr)
  | forward {s : Kern} (u : Tsk) (id : ID) (atr : ℕ) (hw : (s.tcb u).state.isWait)
      (hrdv : (s.tcb u).wspec = .rdv) (hatr : s.objatr (.por, id) = some atr)
      (hmask : isDiswai atr (s.tcb u).waitmask TTW_CAL = false) :
      KernStep good (none, s) (none, s.toCal u id atr)
  | newRdv {s : Kern} (u : Tsk) (atr : ℕ) (hw : (s.tcb u).state.isWait)
      (hrdv : (s.tcb u).wspec = .rdv)
      (hmask : isDiswai atr (s.tcb u).waitmask TTW_RDV = false) :
      KernStep good (none, s)
        (none, (s.upd u fun c => { c with nodiswai := atr &&& TA_NODISWAI ≠ 0 }).toRdv u atr)
  -- counters
  | suspend {s : Kern} (t : Tsk) (h : (s.tcb t).state ≠ .nonexist) (h' : (s.tcb t).state ≠ .dormant)
      (hmax : (s.tcb t).suscnt ≠ INT_MAX) : KernStep good (none, s) (none, s.suspendTask t)
  | resume {s : Kern} (t : Tsk) (h : (s.tcb t).state = .suspend ∨ (s.tcb t).state = .waitsus) :
      KernStep good (none, s) (none, s.resumeTask t)
  | force {s : Kern} (t : Tsk) (h : (s.tcb t).state = .suspend ∨ (s.tcb t).state = .waitsus) :
      KernStep good (none, s) (none, s.forceTask t)
  | sleep {s : Kern} (t : Tsk) (h : (s.tcb t).wupcnt > 0) :
      KernStep good (none, s)
        (none, (s.upd t fun c => { c with wupcnt := c.wupcnt - 1 }).note (.slept t))
  | wake {s : Kern} (t : Tsk) (h : (s.tcb t).wupcnt ≠ INT_MAX) (hd : (s.tcb t).state ≠ .dormant) :
      KernStep good (none, s)
        (none, (s.upd t fun c => { c with wupcnt := c.wupcnt + 1 }).note (.wakened t))
  | awake {s : Kern} (t : Tsk) :
      KernStep good (none, s) (none, (s.note (.wakened t)).note (.awoken t))
  | clear {s : Kern} (t : Tsk) :
      KernStep good (none, s)
        (none, (s.upd t fun c => { c with wupcnt := 0 }).note (.cancelled t (s.tcb t).wupcnt))

abbrev KernSteps (good : Prop) : Option Tsk × Kern → Option Tsk × Kern → Prop :=
  ReflTransGen (KernStep good)

namespace Kern

variable {good : Prop} {x : Option Tsk} {s s₁ s₂ : Kern} {t : Tsk} {q : QueueId} {h : Hook}
  {r : Kern × Option (Tsk × ℕ)} {call : Kern × Option ER}

/-! ## The routines of `wait.c` and `mutex.c` -/

theorem steps_one {a b : Option Tsk × Kern} (h : KernStep good a b) : KernSteps good a b :=
  .single h

theorem wakeup_steps (q : QueueId) (n : ℕ) (s : Kern) :
    KernSteps good (x, s) (x, wakeup q n s) := by
  induction n generalizing s with
  | zero => exact .refl
  | succ n ih =>
    unfold wakeup
    split
    · exact .refl
    · next u us hq => exact .head (.release u (.inl ⟨q, hq ▸ List.mem_cons_self⟩)) (ih _)

theorem Same.upd {f : TaskCB → TaskCB} (hf : ∀ c, (f c).core = c.core) : Same s (s.upd t f) := by
  refine ⟨fun u => ?_, rfl, rfl, rfl, rfl, rfl, rfl⟩
  rw [upd_tcb]
  split_ifs with hu
  · rw [hu, hf]
  · rfl

theorem upd_steps (t : Tsk) (f : TaskCB → TaskCB) (hf : ∀ c, (f c).core = c.core) :
    KernSteps good (x, s) (x, s.upd t f) := steps_one (.same (Same.upd hf))

theorem Same.holdMutex (t : Tsk) (m : ID) : Same s (s.holdMutex t m) := by
  refine ⟨fun u => ?_, rfl, rfl, rfl, rfl, rfl, rfl⟩
  rw [Kern.holdMutex, upd_tcb]
  split_ifs with hu
  · rw [hu]
    rfl
  · rfl

theorem releaseMutex_steps (t : Tsk) (m : Option ID) :
    KernSteps good (x, s) (x, (s.releaseMutex t m).1) :=
  upd_steps t (fun c => { c with mtxlist := c.mtxlist.filter fun m' => some m' ≠ m }) fun _ => rfl

theorem mtxChgPri_steps (t : Tsk) (oldpri : ℕ) :
    KernSteps good (x, s.requeue t (.mtx, (s.tcb t).wid)) (x, (s.mtxChgPri t oldpri).1) := by
  unfold mtxChgPri
  dsimp only
  split_ifs
  · split
    · exact .refl
    · split_ifs
      · exact .refl
      · exact releaseMutex_steps ..
      · exact .refl
  · exact .refl

theorem mtxRelWai_steps (t : Tsk) : KernSteps good (x, s) (x, (s.mtxRelWai t).1) := by
  unfold mtxRelWai
  split
  · exact .refl
  · split_ifs
    · exact releaseMutex_steps ..
    · exact .refl

/-- After the new priority is written and the task is put in its place, the hook goes on. -/
theorem chgPriHook_steps (t : Tsk) (served oldpri : ℕ) (hw : (s.tcb t).state.isWait) :
    KernSteps good
      (x, if (s.tcb t).state.isWait ∧ (s.tcb t).wspec.ordered then
          match s.waitQueue t with
          | none => s
          | some q => s.requeue t q
        else s)
      (x, (s.chgPriHook t served oldpri).1) := by
  unfold chgPriHook waitQueue
  cases hspec : (s.tcb t).wspec with
  | que k tpri =>
    cases tpri
    · simpa [WaitSpec.ordered] using ReflTransGen.refl
    · by_cases hk : k = .mtx
      · subst hk
        simpa [WaitSpec.ordered, WaitSpec.kind, hw] using mtxChgPri_steps t oldpri
      · have hsplit : KernSteps good (x, s.requeue t (k, (s.tcb t).wid))
            (x, if k.serves then wakeup (k, (s.tcb t).wid) served (s.requeue t (k, (s.tcb t).wid))
              else s.requeue t (k, (s.tcb t).wid)) := by
          split_ifs
          · exact wakeup_steps ..
          · exact .refl
        cases k <;> first | exact absurd rfl hk | simpa [WaitSpec.ordered, WaitSpec.kind, hw]
          using hsplit
  | mtxInherit => simpa [WaitSpec.ordered, WaitSpec.kind, hw] using mtxChgPri_steps t oldpri
  | _ => simpa [WaitSpec.ordered] using ReflTransGen.refl

theorem changePriority_steps (t : Tsk) (served p : ℕ)
    (ht : (s.tcb t).state.isWait → some t = x → ¬good ∧ (s.tcb t).wspec = .mtxInherit) :
    KernSteps good (x, s) (x, (s.changePriority t served p).1) := by
  refine .head (.priority t p ht) ?_
  unfold changePriority reprioritize
  dsimp only
  by_cases hw : (((s.upd t fun c => { c with priority := p }).touch t).tcb t).state.isWait = true
  · rw [if_pos hw]
    exact chgPriHook_steps t served _ hw
  · rw [if_neg hw, if_neg fun h => hw h.1]

/-- What a change of priority leaves as it is: the wait specifications, and a task that does not
wait and is in no queue, except perhaps that of a mutex. -/
structure Calm (t : Tsk) (s s' : Kern) : Prop where
  wspec : ∀ u, (s'.tcb u).wspec = (s.tcb u).wspec
  objatr : s'.objatr = s.objatr
  idle : (s.tcb t).state.isWait = false → (∀ q : QueueId, q.1 ≠ .mtx → t ∉ s.queue q) →
    (s'.tcb t).state = (s.tcb t).state ∧ (s'.tcb t).waitmask = (s.tcb t).waitmask ∧
      ∀ q : QueueId, q.1 ≠ .mtx → t ∉ s'.queue q

theorem Calm.refl (t : Tsk) (s : Kern) :
    Calm t s s := ⟨fun _ => rfl, rfl, fun _ hq => ⟨rfl, rfl, hq⟩⟩

theorem Calm.trans (h₁ : Calm t s s₁) (h₂ : Calm t s₁ s₂) : Calm t s s₂ := by
  refine ⟨fun u => (h₂.wspec u).trans (h₁.wspec u), h₂.objatr.trans h₁.objatr, fun hw hq => ?_⟩
  obtain ⟨hstate, hmask, hq⟩ := h₁.idle hw hq
  obtain ⟨hstate', hmask', hq'⟩ := h₂.idle (hstate ▸ hw) hq
  exact ⟨hstate'.trans hstate, hmask'.trans hmask, hq'⟩

theorem Calm.upd (u : Tsk) (f : TaskCB → TaskCB)
    (hf : ∀ c, (f c).wspec = c.wspec ∧ (f c).state = c.state ∧ (f c).waitmask = c.waitmask) :
    Calm t s (s.upd u f) := by
  have htcb (v : Tsk) : ((s.upd u f).tcb v).wspec = (s.tcb v).wspec ∧
    ((s.upd u f).tcb v).state = (s.tcb v).state ∧
      ((s.upd u f).tcb v).waitmask = (s.tcb v).waitmask := by
    rw [upd_tcb]
    split_ifs with hv
    · rw [hv]
      exact hf _
    · exact ⟨rfl, rfl, rfl⟩
  exact ⟨fun v => (htcb v).1, rfl, fun _ hq => ⟨(htcb t).2.1, (htcb t).2.2, hq⟩⟩

theorem Calm.wakeup (hq : q.1 ≠ .mtx) (n : ℕ) (s : Kern) : Calm t s (wakeup q n s) := by
  induction n generalizing s with
  | zero => exact .refl t s
  | succ n ih =>
    unfold Kern.wakeup
    split
    · exact .refl t s
    · next v vs hv =>
      refine .trans ⟨fun u => ?_, waitRelease_objatr, fun _ hin => ?_⟩ (ih _)
      · rw [waitRelease_eq, queRemove_tcb, upd_tcb]
        split_ifs with hu
        · rw [hu, TaskCB.released]
          split_ifs <;> rfl
        · rfl
      · have hne : t ≠ v := fun e => hin q hq (hv ▸ e ▸ List.mem_cons_self)
        rw [waitRelease_of_ne hne]
        exact ⟨rfl, rfl, fun q' hq' ht =>
          hin q' hq' (List.mem_of_mem_erase (waitRelease_queue q' ▸ ht))⟩

theorem Calm.requeue {u : Tsk} (hw : (s.tcb u).state.isWait) : Calm t s (s.requeue u q) := by
  refine ⟨fun _ => rfl, rfl, fun ht hin => ⟨rfl, rfl, fun q' hq' hmem => ?_⟩⟩
  have hne : t ≠ u := fun e => absurd (e ▸ ht) (by rw [hw]; decide)
  unfold Kern.requeue at hmem
  by_cases hqq : q' = q
  · subst hqq
    rw [setQueue_self] at hmem
    rcases List.mem_cons.mp ((queueInsertTpri_perm _ _ _).subset hmem) with he | hmem
    · exact hne he
    · exact hin q' hq' (List.mem_of_mem_erase hmem)
  · rw [setQueue_of_ne hqq] at hmem
    exact hin q' hq' hmem

theorem Calm.releaseMutex (u : Tsk) (m : Option ID) : Calm t s (s.releaseMutex u m).1 :=
  .upd u (fun c => { c with mtxlist := c.mtxlist.filter fun m' => some m' ≠ m }) fun _ =>
    ⟨rfl, rfl, rfl⟩

theorem Calm.mtxChgPri {u : Tsk} (oldpri : ℕ) (hw : (s.tcb u).state.isWait) :
    Calm t s (s.mtxChgPri u oldpri).1 := by
  have hrequeue : Calm t s (s.requeue u (.mtx, (s.tcb u).wid)) := .requeue hw
  refine hrequeue.trans ?_
  unfold Kern.mtxChgPri
  dsimp only
  split_ifs
  · split
    · exact .refl t _
    · split_ifs
      · exact .refl t _
      · exact .releaseMutex ..
      · exact .refl t _
  · exact .refl t _

theorem Calm.mtxRelWai (u : Tsk) : Calm t s (s.mtxRelWai u).1 := by
  unfold Kern.mtxRelWai
  split
  · exact .refl t s
  · split_ifs
    · exact .releaseMutex ..
    · exact .refl t s

theorem Calm.chgPriHook {u : Tsk} (served oldpri : ℕ) (hw : (s.tcb u).state.isWait) :
    Calm t s (s.chgPriHook u served oldpri).1 := by
  unfold Kern.chgPriHook
  split
  · exact .mtxChgPri oldpri hw
  · exact .mtxChgPri oldpri hw
  · next k _ hk =>
    dsimp only
    split_ifs with hserves
    · refine (Calm.requeue hw).trans (.wakeup (fun (e : k = .mtx) => ?_) ..)
      rw [e] at hserves
      cases hserves
    · exact .requeue hw
  · exact .refl t s

theorem Calm.changePriority (u : Tsk) (served p : ℕ) :
    Calm t s (s.changePriority u served p).1 := by
  have hupd : Calm t s ((s.upd u fun c => { c with priority := p }).touch u) :=
    .trans (.upd u (fun c => { c with priority := p }) fun _ => ⟨rfl, rfl, rfl⟩)
      ⟨fun _ => rfl, rfl, fun _ hq => ⟨rfl, rfl, hq⟩⟩
  unfold Kern.changePriority
  dsimp only
  split_ifs with hw
  · exact hupd.trans (.chgPriHook served _ hw)
  · exact hupd

theorem Calm.chain (served depth : ℕ) (r : Kern × Option (Tsk × ℕ)) :
    Calm t r.1 (chain served depth r) := by
  induction depth generalizing r with
  | zero => exact .refl t r.1
  | succ depth ih =>
    unfold Kern.chain
    split
    · exact .refl t r.1
    · exact (Calm.changePriority ..).trans (ih _)

/-- The task that is away gets a priority only if it waits for a mutex with inheritance. -/
theorem chain_steps (served depth : ℕ) (r : Kern × Option (Tsk × ℕ))
    (hx : good → ∀ u ∈ chainTasks served depth r, some u ≠ x)
    (hm : ∀ u, some u = x → (r.1.tcb u).wspec = .mtxInherit) :
    KernSteps good (x, r.1) (x, chain served depth r) := by
  induction depth generalizing r with
  | zero => exact .refl
  | succ depth ih =>
    unfold chain
    unfold chainTasks at hx
    split
    · exact .refl
    · next u p hr =>
      rw [hr] at hx
      refine (changePriority_steps u served p fun _ hu => ⟨fun hg => hx hg u List.mem_cons_self hu,
        hm u hu⟩).trans
        (ih _ (fun hg v hv => hx hg v (List.mem_cons_of_mem u hv)) fun v hv => ?_)
      rw [(Calm.changePriority (t := v) u served p).wspec, hm v hv]

theorem chain_steps_none (served depth : ℕ) (r : Kern × Option (Tsk × ℕ)) :
    KernSteps good (none, r.1) (none, chain served depth r) :=
  chain_steps served depth r (fun _ _ _ => Option.some_ne_none _) nofun

theorem changeTaskPriority_steps (t : Tsk) (h : Hook) (p : ℕ) :
    KernSteps good (none, s) (none, s.changeTaskPriority t h p) :=
  chain_steps_none h.served h.depth (s, some (t, p))

/-- The tasks that get a priority when a wait of the task ends by force. -/
def hookTasks (s : Kern) (t : Tsk) (h : Hook) : List Tsk :=
  if (s.tcb t).wspec = .mtxInherit then chainTasks h.served h.depth (s.mtxRelWai t) else []

theorem relWaiHook_steps (t : Tsk) (h : Hook) (hx : good → ∀ u ∈ s.hookTasks t h, some u ≠ x)
    (hself : ∀ u, some u = x → u = t) :
    KernSteps good (x, s) (x, s.relWaiHook t h) := by
  unfold relWaiHook
  unfold hookTasks at hx
  split
  · split_ifs
    · exact wakeup_steps ..
    · exact .refl
  · next hspec =>
    rw [if_pos hspec] at hx
    refine (mtxRelWai_steps t).trans (chain_steps h.served h.depth _ hx fun u hu => ?_)
    rw [(Calm.mtxRelWai (t := u) t).wspec, hself u hu, hspec]
  · exact .refl

theorem waitReleaseNg_steps (t : Tsk) (h : Hook) (ht : (s.tcb t).state.isWait) :
    KernSteps good (none, s) (none, s.waitReleaseNg t h) :=
  .head (.release t (.inr ⟨ht, Option.some_ne_none t⟩))
    (relWaiHook_steps t h (fun _ _ _ => Option.some_ne_none _) nofun)

theorem changeTaskPriority_steps_idle (t : Tsk) (h : Hook) (p : ℕ)
    (ht : (s.tcb t).state.isWait = false) :
    KernSteps good (x, s) (x, s.changeTaskPriority t h p) := by
  have hnone : (s.changePriority t h.served p).2 = none := by
    unfold changePriority
    rw [if_neg]
    simpa using ht
  have hidle : (s.tcb t).state.isWait → some t = x → ¬good ∧ (s.tcb t).wspec = .mtxInherit :=
    fun hw => absurd (ht ▸ hw) Bool.false_ne_true
  unfold changeTaskPriority
  cases h.depth with
  | zero => exact .refl
  | succ depth =>
    have hchain : chain h.served depth (s.changePriority t h.served p) =
        (s.changePriority t h.served p).1 := by
      cases depth with
      | zero => rfl
      | succ depth => rw [chain, hnone]
    change KernSteps good (x, s) (x, chain h.served depth (s.changePriority t h.served p))
    rw [hchain]
    exact changePriority_steps t h.served p hidle

theorem isWait_released (c : TaskCB) : c.released.state.isWait = false := by
  unfold TaskCB.released
  split_ifs <;> rfl

theorem passMutex_steps (h : Hook) (m : ID) : KernSteps good (x, s) (x, s.passMutex h m) := by
  unfold passMutex
  split
  · exact steps_one (.same ⟨fun _ => rfl, rfl, rfl, rfl, rfl, rfl, rfl⟩)
  · next u us hq =>
    refine .head (.release u (.inl ⟨_, hq ▸ List.mem_cons_self⟩)) ?_
    refine .head (.same (Same.holdMutex u m)) ?_
    dsimp only
    split_ifs
    · refine changeTaskPriority_steps_idle u h _ ?_
      rw [holdMutex, upd_self]
      change ((s.waitRelease u).tcb u).state.isWait = false
      rw [waitRelease_self, isWait_released]
    · exact .refl

theorem signalAllMutex_steps (t : Tsk) (h : Hook) :
    KernSteps good (x, s) (x, s.signalAllMutex t h) := by
  unfold signalAllMutex
  generalize (s.tcb t).mtxlist = ms
  induction ms generalizing s with
  | nil => exact .refl
  | cons m ms ih => exact (passMutex_steps h m).trans ih

theorem serve_steps (q : QueueId) (served : List Tsk) :
    KernSteps good (x, s) (x, s.serve q served) := by
  unfold serve
  induction served generalizing s with
  | nil => exact .refl
  | cons u us ih =>
    rw [List.foldl_cons]
    split_ifs with hu
    · exact .head (.release u (.inl ⟨q, hu⟩)) ih
    · exact ih

/-! ## Deletion empties the queues -/

theorem wakeup_queue_sublist (q q' : QueueId) (n : ℕ) (s : Kern) :
    ((wakeup q n s).queue q').Sublist (s.queue q') := by
  induction n generalizing s with
  | zero => exact List.Sublist.refl _
  | succ n ih =>
    unfold wakeup
    split
    · exact List.Sublist.refl _
    · next u us _ => exact (ih _).trans (by rw [waitRelease_queue]; exact List.erase_sublist)

theorem wakeup_queue (q : QueueId) (n : ℕ) (s : Kern) :
    (wakeup q n s).queue q = (s.queue q).drop n := by
  induction n generalizing s with
  | zero => rfl
  | succ n ih =>
    unfold wakeup
    split
    · next hq => rw [hq]; rfl
    · next u us hq => rw [ih, waitRelease_queue, hq, List.erase_cons_head, List.drop_succ_cons]

theorem waitDelete_queue (q : QueueId) : (s.waitDelete q).queue q = [] := by
  rw [waitDelete, wakeup_queue, List.drop_length]

theorem deleted_steps (k : ObjKind) (id : ID) :
    KernSteps good (none, s) (none, s.deleted k id) := by
  have hfold : ∀ (ws done : List WaitKind) (s : Kern), (∀ w ∈ done, s.queue (w, id) = []) →
      KernSteps good (none, s) (none, ws.foldl (fun s w => s.waitDelete (w, id)) s) ∧
      ∀ w ∈ done ++ ws, (ws.foldl (fun s w => s.waitDelete (w, id)) s).queue (w, id) = [] := by
    intro ws
    induction ws with
    | nil => exact fun done s hdone => ⟨.refl, by simpa using hdone⟩
    | cons w ws ih =>
      intro done s hdone
      have hdone' : ∀ w' ∈ done ++ [w], (s.waitDelete (w, id)).queue (w', id) = [] := by
        intro w' hw'
        rcases List.mem_append.mp hw' with hw' | hw'
        · exact List.sublist_nil.mp (hdone w' hw' ▸ wakeup_queue_sublist ..)
        · rw [List.mem_singleton.mp hw', waitDelete_queue]
      obtain ⟨hsteps, hempty⟩ := ih (done ++ [w]) (s.waitDelete (w, id)) hdone'
      exact ⟨(wakeup_steps ..).trans hsteps, by simpa using hempty⟩
  obtain ⟨hsteps, hempty⟩ := hfold k.queues [] s (by simp)
  refine hsteps.tail (.unregister k id fun w hw => hempty w ?_)
  subst hw
  cases w <;> simp [WaitKind.obj, ObjKind.queues]

/-! ## The calls -/

theorem checked_steps {chk : ER} (h : chk = E_OK → KernSteps good (none, s) (none, call.1)) :
    KernSteps good (none, s) (none, (s.checked chk call).1) := by
  unfold checked
  split_ifs with hchk
  · exact .refl
  · exact h (not_not.mp hchk)

theorem onTask_steps {chk dormant : ER}
    (h : chk = E_OK → (s.tcb t).state ≠ .nonexist → ((s.tcb t).state = .dormant → dormant = E_OK) →
      KernSteps good (none, s) (none, call.1)) :
    KernSteps good (none, s) (none, (s.onTask t chk dormant call).1) := by
  refine checked_steps fun hchk => ?_
  split_ifs with hnone hdormant
  · exact .refl
  · exact .refl
  · exact h hchk hnone fun hd => not_not.mp fun hne => hdormant ⟨hd, hne⟩

theorem onObj_steps {k : ObjKind} {id : ID} {chk : ER} {call : ℕ → Kern × Option ER}
    (h : ∀ atr, s.objatr (k, id) = some atr → KernSteps good (none, s) (none, (call atr).1)) :
    KernSteps good (none, s) (none, (s.onObj k id chk call).1) := by
  refine checked_steps fun _ => ?_
  split
  · exact .refl
  · next atr hatr => exact h atr hatr

theorem terLeave_steps (t : Tsk) (h : Hook) (hn : (s.tcb t).state ≠ .nonexist)
    (hd : (s.tcb t).state ≠ .dormant)
    (hx : good → (s.tcb t).state.isWait → t ∉ (s.waitCancel t).hookTasks t h) :
    KernSteps good (none, s) (some t, s.terLeave t h) := by
  unfold terLeave
  split_ifs with hready hw
  · exact steps_one (.nonReady t hready)
  · refine .head (.cancel t hw) (relWaiHook_steps t h (fun hg u hu hut => hx hg hw ?_) fun u hu =>
      Option.some.inj hu)
    exact Option.some.inj hut ▸ hu
  · refine steps_one (.stay t ?_)
    cases hs : (s.tcb t).state <;> simp_all [TaskState.isWait]

theorem terTask_steps (t : Tsk) (h : Hook) (hn : (s.tcb t).state ≠ .nonexist)
    (hd : (s.tcb t).state ≠ .dormant)
    (hx : good → (s.tcb t).state.isWait → t ∉ (s.waitCancel t).hookTasks t h) :
    KernSteps good (none, s) (some t, s.terTask t h) :=
  (terLeave_steps t h hn hd hx).trans (signalAllMutex_steps t h)

theorem Runs.not_isWait (h : s.Runs t) : (s.tcb t).state.isWait = false := by
  rcases h with h | h <;> rw [h] <;> rfl

theorem Runs.ne_nonexist (h : s.Runs t) : (s.tcb t).state ≠ .nonexist := by
  rcases h with h | h <;> rw [h] <;> decide

theorem Runs.ne_dormant (h : s.Runs t) : (s.tcb t).state ≠ .dormant := by
  rcases h with h | h <;> rw [h] <;> decide

theorem terTask_steps_runs (h : Hook) (runs : s.Runs t) :
    KernSteps good (none, s) (some t, s.terTask t h) :=
  terTask_steps t h runs.ne_nonexist runs.ne_dormant fun _ hw =>
    absurd (runs.not_isWait ▸ hw) Bool.false_ne_true

theorem gcbMakeWaitWithDiswai_steps {k : WaitKind} {id : ID} {atr : ℕ} {tmout : ℤ} (runs : s.Runs t)
    (hatr : s.objatr (k.obj, id) = some atr) :
    KernSteps good (none, s) (none, (s.gcbMakeWaitWithDiswai t k id atr tmout).1) := by
  unfold gcbMakeWaitWithDiswai
  split_ifs with hmask
  · exact .refl
  · exact .refl
  · exact steps_one (.enter t k id atr tmout runs hatr (Bool.eq_false_of_not_eq_true hmask))

theorem waiObj_steps {k : WaitKind} {id : ID} {tmout : ℤ} {got : Bool} {chk : ER}
    (runs : s.Runs t) :
    KernSteps good (none, s) (none, (s.waiObj t k id tmout got chk).1) := by
  refine onObj_steps fun atr hatr => ?_
  split_ifs
  · exact .refl
  · exact .refl
  · exact gcbMakeWaitWithDiswai_steps runs hatr

theorem signal_steps (k : WaitKind) (id : ID) (served : List Tsk) (chk : ER) :
    KernSteps good (none, s) (none, (s.signal k id served chk).1) :=
  onObj_steps fun _ _ => serve_steps ..

theorem Runs.waitRelease (h : s.Runs t) (u : Tsk) : (s.waitRelease u).Runs t := by
  rcases eq_or_ne t u with rfl | hne
  · right
    have hw : (s.tcb t).state ≠ .wait := fun hw => absurd (hw ▸ h.not_isWait) (by decide)
    rw [waitRelease_self, TaskCB.released, if_neg hw]
  · rwa [Runs, waitRelease_of_ne hne]

theorem creTsk_steps (t : Tsk) (p : ℕ) (chk : ER) :
    KernSteps good (none, s) (none, (s.creTsk t p chk).1) := by
  refine checked_steps fun _ => ?_
  split_ifs with hn
  · exact .refl
  · exact steps_one (.create t p (not_not.mp hn))

theorem delTsk_steps (t : Tsk) (chk : ER) :
    KernSteps good (none, s) (none, (s.delTsk t chk).1) := by
  refine onTask_steps fun _ _ _ => ?_
  split_ifs with hd
  · exact .refl
  · exact steps_one (.delete t (not_not.mp hd))

theorem staTsk_steps (t : Tsk) (chk : ER) :
    KernSteps good (none, s) (none, (s.staTsk t chk).1) := by
  refine onTask_steps fun _ _ _ => ?_
  split_ifs with hd
  · exact .refl
  · exact steps_one (.start t (not_not.mp hd))

theorem extTsk_steps (h : Hook) (runs : s.Runs t) :
    KernSteps good (none, s) (none, (s.extTsk t h).1) :=
  (terTask_steps_runs h runs).tail (.dormant t)

theorem exdTsk_steps (h : Hook) (runs : s.Runs t) :
    KernSteps good (none, s) (none, (s.exdTsk t h).1) :=
  (terTask_steps_runs h runs).tail (.gone t)

theorem terTsk_steps (t : Tsk) (h : Hook) (chk : ER)
    (hx : good → chk = E_OK → (s.tcb t).state.isWait → t ∉ (s.waitCancel t).hookTasks t h) :
    KernSteps good (none, s) (none, (s.terTsk t h chk).1) :=
  onTask_steps fun hchk hn hd =>
    (terTask_steps t h hn (fun hs => absurd (hd hs) (by decide)) fun hg => hx hg hchk).tail
    (.dormant t)

theorem chgPri_steps (t : Tsk) (h : Hook) (tskpri : Option ℕ) (chk : ER) :
    KernSteps good (none, s) (none, (s.chgPri t h tskpri chk).1) := by
  refine onTask_steps fun _ _ _ => ?_
  dsimp only
  split
  · exact .refl
  · exact (upd_steps t (fun c => { c with bpriority := tskpri.getD (s.tcb t).ipriority }) fun _ =>
      rfl).trans
      (changeTaskPriority_steps t h _)

theorem relWai_steps (t : Tsk) (h : Hook) (chk : ER) :
    KernSteps good (none, s) (none, (s.relWai t h chk).1) := by
  refine onTask_steps fun _ _ _ => ?_
  split_ifs with hw
  · exact waitReleaseNg_steps t h hw
  · exact .refl

theorem waitRelease_mask (s : Kern) (t : Tsk) (m : ℕ) :
    (s.upd t fun c => { c with waitmask := m }).waitRelease t =
      (s.waitRelease t).upd t fun c => { c with waitmask := m } := by
  rw [waitRelease_eq, waitRelease_eq, upd_upd]
  change _ = ((s.upd t TaskCB.released).upd t fun c => { c with waitmask := m }).queRemove t
  rw [upd_upd]
  congr 2
  funext c
  unfold TaskCB.released
  dsimp only
  split_ifs <;> rfl

theorem disWai_steps (t : Tsk) (h : Hook) (m : ℕ) (chk : ER) :
    KernSteps good (none, s) (none, (s.disWai t h m chk).1) := by
  refine onTask_steps fun _ _ _ => ?_
  dsimp only
  rw [upd_self]
  dsimp only
  split_ifs with hw hrel
  · refine .head (.release t (.inr ⟨hw, Option.some_ne_none t⟩)) ?_
    have hidle : ((s.waitRelease t).tcb t).state.isWait = false := by
      rw [waitRelease_self, isWait_released]
    refine .head (.mask t m fun hw' => absurd (hidle ▸ hw') Bool.false_ne_true) ?_
    rw [waitReleaseNg, waitRelease_mask]
    exact relWaiHook_steps t h (fun _ _ _ => Option.some_ne_none _) nofun
  · refine steps_one (.mask t m fun _ => ?_)
    rcases not_and_or.mp hrel with h0 | h1
    · exact .inl (not_not.mp h0)
    · exact .inr (Bool.eq_true_of_not_eq_false h1)
  · exact steps_one (.mask t m fun hw' => absurd hw' hw)

theorem enaWai_steps (t : Tsk) (chk : ER) : KernSteps good (none, s) (none, (s.enaWai t chk).1) :=
  onTask_steps fun _ _ _ => steps_one (.mask t 0 fun _ => .inl (Nat.and_zero _))

theorem svcMask_steps (m : ℕ) (runs : s.Runs t) :
    KernSteps good (none, s) (none, (s.svcMask t m).1) :=
  steps_one (.mask t m fun hw => absurd (runs.not_isWait ▸ hw) Bool.false_ne_true)

theorem susTsk_steps (t : Tsk) (chk : ER) :
    KernSteps good (none, s) (none, (s.susTsk t chk).1) := by
  refine onTask_steps fun _ hn hd => ?_
  split_ifs with hmax
  · exact .refl
  · exact steps_one (.suspend t hn (fun hs => absurd (hd hs) (by decide)) hmax)

theorem rsmTsk_steps (t : Tsk) (chk : ER) :
    KernSteps good (none, s) (none, (s.rsmTsk t chk).1) := by
  refine onTask_steps fun _ _ _ => ?_
  split_ifs with hs
  · exact steps_one (.resume t hs)
  · exact .refl

theorem frsmTsk_steps (t : Tsk) (chk : ER) :
    KernSteps good (none, s) (none, (s.frsmTsk t chk).1) := by
  refine onTask_steps fun _ _ _ => ?_
  split_ifs with hs
  · exact steps_one (.force t hs)
  · exact .refl

theorem slpTsk_steps (tmout : ℤ) (chk : ER) (runs : s.Runs t) :
    KernSteps good (none, s) (none, (s.slpTsk t tmout chk).1) := by
  refine checked_steps fun _ => ?_
  split_ifs with hmask hwup hpol
  · exact .refl
  · exact steps_one (.sleep t hwup)
  · exact .refl
  · exact steps_one (.alone t .slp _ runs rfl nofun (not_not.mp hmask))

theorem wupTsk_steps (t : Tsk) (chk : ER) :
    KernSteps good (none, s) (none, (s.wupTsk t chk).1) := by
  refine onTask_steps fun _ _ hd => ?_
  split_ifs with hslp hmax
  · exact .head (.release t (.inr ⟨hslp.1, Option.some_ne_none t⟩)) (steps_one (.awake t))
  · exact .refl
  · exact steps_one (.wake t hmax fun hs => absurd (hd hs) (by decide))

theorem canWup_steps (t : Tsk) (chk : ER) : KernSteps good (none, s) (none, (s.canWup t chk).1) :=
  onTask_steps fun _ _ _ => steps_one (.clear t)

theorem waiTev_steps (waiptn : ℕ) (tmout : ℤ) (chk : ER) (runs : s.Runs t) :
    KernSteps good (none, s) (none, (s.waiTev t waiptn tmout chk).1) := by
  refine checked_steps fun _ => ?_
  dsimp only
  split_ifs with hmask hevt hpol
  · exact .refl
  · exact upd_steps t (fun c => { c with tskevt := _ }) fun _ => rfl
  · exact .refl
  · exact steps_one (.alone t (.tev waiptn) _ runs rfl nofun (not_not.mp hmask))

theorem sigTev_steps (t : Tsk) (tskevt : ℕ) (chk : ER) :
    KernSteps good (none, s) (none, (s.sigTev t tskevt chk).1) := by
  refine onTask_steps fun _ _ _ => ?_
  dsimp only
  split_ifs with hw
  · exact steps_one (.release t (.inr ⟨hw.1, Option.some_ne_none t⟩))
  · exact upd_steps t (fun c => { c with tskevt := _ }) fun _ => rfl

theorem dlyTsk_steps (dlytim : ℕ) (chk : ER) (runs : s.Runs t) :
    KernSteps good (none, s) (none, (s.dlyTsk t dlytim chk).1) := by
  refine checked_steps fun _ => ?_
  split_ifs with h0 hmask
  · exact .refl
  · exact .refl
  · exact steps_one (.alone t .dly true runs rfl nofun (not_not.mp hmask))

theorem creObj_steps (k : ObjKind) (id : ID) (atr : ℕ) (chk : ER) :
    KernSteps good (none, s) (none, (s.creObj k id atr chk).1) := by
  refine checked_steps fun _ => ?_
  split_ifs with hfree
  · exact .refl
  · exact steps_one (.register k id atr (not_not.mp hfree))

theorem creMtx_steps (id : ID) (atr ceilpri : ℕ) (chk : ER) :
    KernSteps good (none, s) (none, (s.creMtx id atr ceilpri chk).1) := by
  refine checked_steps fun _ => ?_
  split_ifs with hfree
  · exact .refl
  · exact .head (.register .mtx id atr (not_not.mp hfree))
      (steps_one (.same ⟨fun _ => rfl, rfl, rfl, rfl, rfl, rfl, rfl⟩))

theorem delObj_steps (k : ObjKind) (id : ID) (chk : ER) :
    KernSteps good (none, s) (none, (s.delObj k id chk).1) :=
  onObj_steps fun _ _ => deleted_steps k id

theorem delMtx_steps (h : Hook) (id : ID) (chk : ER) :
    KernSteps good (none, s) (none, (s.delMtx h id chk).1) := by
  refine onObj_steps fun _ _ => ?_
  split
  · exact deleted_steps .mtx id
  · exact ((releaseMutex_steps _ _).trans (chain_steps_none ..)).trans (deleted_steps .mtx id)

theorem sndMbf_steps (caller : Option Tsk) (id : ID) (tmout : ℤ) (stored : Bool) (chk : ER)
    (runs : ∀ t ∈ caller, s.Runs t) :
    KernSteps good (none, s) (none, (s.sndMbf caller id tmout stored chk).1) := by
  refine onObj_steps fun atr hatr => ?_
  split
  · exact .refl
  · split
    · next u us hq => exact steps_one (.release u (.inl ⟨_, hq ▸ List.mem_cons_self⟩))
    · split_ifs
      · exact .refl
      · exact .refl
      · split
        · exact .refl
        · next t _ => exact gcbMakeWaitWithDiswai_steps (runs t rfl) hatr

theorem rcvMbf_steps (h : Hook) (id : ID) (tmout : ℤ) (read : Bool) (chk : ER) (runs : s.Runs t) :
    KernSteps good (none, s) (none, (s.rcvMbf t h id tmout read chk).1) := by
  refine onObj_steps fun atr hatr => ?_
  split
  · exact .refl
  · next hmask =>
    split
    · exact wakeup_steps ..
    · split
      · next u us hq =>
          exact .head (.release u (.inl ⟨_, hq ▸ List.mem_cons_self⟩)) (wakeup_steps ..)
      · split_ifs
        · exact .refl
        · exact steps_one (.enter t .rmbf id atr tmout runs hatr
            (Bool.eq_false_of_not_eq_true hmask))

theorem calPor_steps (id : ID) (tmout : ℤ) (found : Option Tsk) (chk : ER) (runs : s.Runs t)
    (hfound : ∀ u ∈ found, u ∈ s.queue (.acp, id)) :
    KernSteps good (none, s) (none, (s.calPor t id tmout found chk).1) := by
  refine onObj_steps fun atr hatr => ?_
  split
  · exact gcbMakeWaitWithDiswai_steps runs hatr
  · next u =>
    dsimp only
    split_ifs with hcal hrdv
    · exact .refl
    · exact steps_one (.release u (.inl ⟨_, hfound u rfl⟩))
    · exact .head (.release u (.inl ⟨_, hfound u rfl⟩))
        (steps_one (.rdv t atr (runs.waitRelease u) (Bool.eq_false_of_not_eq_true hrdv)))

theorem acpPor_steps (h : Hook) (id : ID) (tmout : ℤ) (found : Option Tsk) (chk : ER)
    (runs : s.Runs t) (hfound : ∀ u ∈ found, u ∈ s.queue (.cal, id)) :
    KernSteps good (none, s) (none, (s.acpPor t h id tmout found chk).1) := by
  refine onObj_steps fun atr hatr => ?_
  split
  · exact .refl
  · next hmask =>
    split
    · split_ifs
      · exact .refl
      · exact steps_one (.enter t .acp id atr tmout runs hatr (Bool.eq_false_of_not_eq_true hmask))
    · next u =>
      split_ifs with hrdv
      · exact .head (.release u (.inl ⟨_, hfound u rfl⟩))
          (relWaiHook_steps u h (fun _ _ _ => Option.some_ne_none _) nofun)
      · exact steps_one (.accept u id atr (hfound u rfl) hatr (Bool.eq_false_of_not_eq_true hrdv))

/-- The task that accepts is not the one whose rendezvous is forwarded. -/
theorem fwdPor_steps (h : Hook) (id : ID) (u : Tsk) (found : Option Tsk) (chk : ER)
    (hfound : ∀ v ∈ found, v ∈ s.queue (.acp, id))
    (hne : (s.tcb u).wspec = .rdv → ∀ v ∈ found, u ≠ v) :
    KernSteps good (none, s) (none, (s.fwdPor h id u found chk).1) := by
  refine onObj_steps fun atr hatr => ?_
  split_ifs with hrdv hcal
  · exact .refl
  · exact waitReleaseNg_steps u h (Bool.eq_true_of_not_eq_false fun hw => hrdv (.inl hw))
  · obtain ⟨hw, hspec⟩ := not_or.mp hrdv
    replace hw := Bool.eq_true_of_not_eq_false hw
    replace hspec := not_not.mp hspec
    split
    · exact steps_one (.forward u id atr hw hspec hatr (Bool.eq_false_of_not_eq_true hcal))
    · next v =>
      have htcb : (s.waitRelease v).tcb u = s.tcb u := waitRelease_of_ne (hne hspec v rfl)
      refine .head (.release v (.inl ⟨_, hfound v rfl⟩)) ?_
      dsimp only
      split_ifs with hdis
      · exact waitReleaseNg_steps u h (htcb ▸ hw)
      · exact steps_one (.newRdv u atr (htcb ▸ hw) (htcb ▸ hspec)
          (Bool.eq_false_of_not_eq_true hdis))

theorem rplRdv_steps (u : Tsk) (chk : ER) :
    KernSteps good (none, s) (none, (s.rplRdv u chk).1) := by
  refine checked_steps fun _ => ?_
  split_ifs with hrdv
  · exact .refl
  · exact steps_one (.release u (.inr ⟨Bool.eq_true_of_not_eq_false fun hw => hrdv (.inl hw),
      Option.some_ne_none u⟩))

theorem takeMutex_steps (h : Hook) (id : ID) (atr : ℕ) :
    KernSteps good (none, s) (none, s.takeMutex t h id atr) := by
  refine .head (.same (Same.holdMutex t id)) ?_
  unfold takeMutex
  dsimp only
  split_ifs
  · exact changeTaskPriority_steps t h _
  · exact .refl

theorem raiseHolder_steps (h : Hook) (mtxtsk : Tsk) (atr : ℕ) :
    KernSteps good (none, s) (none, s.raiseHolder t h mtxtsk atr) := by
  unfold raiseHolder
  split_ifs
  · exact changeTaskPriority_steps mtxtsk h _
  · exact .refl

theorem unlMtx_steps (h : Hook) (id : ID) (chk : ER) :
    KernSteps good (none, s) (none, (s.unlMtx t h id chk).1) := by
  refine onObj_steps fun _ _ => ?_
  split_ifs
  · exact .refl
  · exact ((releaseMutex_steps _ _).trans (chain_steps_none ..)).trans (passMutex_steps h id)

end Kern

end SmpTKernel
