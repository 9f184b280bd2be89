import SmpTKernel.KernelSync

/-!
# What leaves the mutexes alone

Who holds and who awaits a mutex, and the base priorities, change in the calls on mutexes, in
`tk_chg_pri` and when a task ends. All other calls, and every change of a current priority, keep
them: at most waits end, and a task that its termination left in the queue of a mutex comes back to
life when it is released.
-/

namespace SmpTKernel

open Kern

variable {s s' s₁ s₂ : Kern} {t u : Tsk} {m id : ID} {q : QueueId} {x : Option Tsk}

namespace Kern

/-- The mutex is there and has a ceiling. -/
def IsCeiling (s : Kern) (m : ID) : Prop :=
  ((s.objatr (.mtx, m)).getD 0) &&& TA_CEILING = TA_CEILING

def WaitsMtx (s : Kern) (t : Tsk) (m : ID) : Prop :=
  (s.tcb t).state.isWait ∧ s.waitQueue t = some (.mtx, m)

def MtxNodup (s : Kern) : Prop := ∀ m, (s.queue (.mtx, m)).Nodup

end Kern

theorem alive_of_isWait {c : TaskCB} (h : c.state.isWait) : c.Alive := by
  unfold TaskCB.Alive
  cases hs : c.state <;> simp_all [TaskState.isWait]

theorem Kern.Runs.alive (h : s.Runs t) : (s.tcb t).Alive := ⟨h.ne_nonexist, h.ne_dormant⟩

theorem Kern.Runs.not_waitsMtx (h : s.Runs t) : ¬s.WaitsMtx t m := fun hw => by
  have hwait := hw.1
  rw [h.not_isWait] at hwait
  cases hwait

theorem waitsMtx_congr (h : s'.tcb t = s.tcb t) : s'.WaitsMtx t m ↔ s.WaitsMtx t m := by
  unfold WaitsMtx waitQueue
  rw [h]

theorem Kern.WaitsMtx.wid (h : s.WaitsMtx t m) : (s.tcb t).wid = m := (waitQueue_eq h.2).2

/-- What a change of no mutex and no base priority keeps. -/
structure MtxKeeps (s s' : Kern) : Prop where
  mtxlist : ∀ t, (s'.tcb t).mtxlist = (s.tcb t).mtxlist
  bpriority : ∀ t, (s'.tcb t).bpriority = (s.tcb t).bpriority
  mtxtsk : s'.mtxtsk = s.mtxtsk
  ceilpri : s'.ceilpri = s.ceilpri
  objatr : ∀ m, s'.objatr (.mtx, m) = s.objatr (.mtx, m)
  waits : ∀ t m, s'.WaitsMtx t m → s.WaitsMtx t m
  nodup : s.MtxNodup → s'.MtxNodup
  /-- The queues of the mutexes get no tasks but those that wait there. -/
  member : s.MtxNodup → ∀ t m, t ∈ s'.queue (.mtx, m) → s'.WaitsMtx t m ∨
    t ∈ s.queue (.mtx, m) ∧ (s.WaitsMtx t m → s'.WaitsMtx t m) ∧
      (¬(s.tcb t).Alive → ¬(s'.tcb t).Alive)
  dead : ∀ t, ¬(s'.tcb t).Alive →
    (s'.tcb t).state = (s.tcb t).state ∧ ∀ q, t ∈ s'.queue q → t ∈ s.queue q
  alive : ∀ t, (s'.tcb t).Alive → (s.tcb t).Alive ∨ ∃ q, t ∈ s.queue q

theorem alive_congr {c c' : TaskCB} (h : c'.state = c.state) : c'.Alive ↔ c.Alive := by
  unfold TaskCB.Alive
  rw [h]

theorem MtxKeeps.refl (s : Kern) : MtxKeeps s s :=
  ⟨fun _ => rfl, fun _ => rfl, rfl, rfl, fun _ => rfl, fun _ _ h => h, id, fun _ _ _ h =>
    .inr ⟨h, id, id⟩, fun _ _ => ⟨rfl, fun _ => id⟩, fun _ => .inl⟩

theorem MtxKeeps.trans (h₁ : MtxKeeps s s₁) (h₂ : MtxKeeps s₁ s₂) : MtxKeeps s s₂ where
  mtxlist t := (h₂.mtxlist t).trans (h₁.mtxlist t)
  bpriority t := (h₂.bpriority t).trans (h₁.bpriority t)
  mtxtsk := h₂.mtxtsk.trans h₁.mtxtsk
  ceilpri := h₂.ceilpri.trans h₁.ceilpri
  objatr m := (h₂.objatr m).trans (h₁.objatr m)
  waits t m h := h₁.waits t m (h₂.waits t m h)
  nodup h := h₂.nodup (h₁.nodup h)
  member hn t m ht := by
    rcases h₂.member (h₁.nodup hn) t m ht with hw | ⟨ht₁, hw₂, hd₂⟩
    · exact .inl hw
    · rcases h₁.member hn t m ht₁ with hw | ⟨ht, hw₁, hd₁⟩
      · exact .inl (hw₂ hw)
      · exact .inr ⟨ht, fun h => hw₂ (hw₁ h), fun h => hd₂ (hd₁ h)⟩
  dead t hd := by
    obtain ⟨hs₂, hq₂⟩ := h₂.dead t hd
    obtain ⟨hs₁, hq₁⟩ := h₁.dead t ((alive_congr hs₂).not.mp hd)
    exact ⟨hs₂.trans hs₁, fun q hq => hq₁ q (hq₂ q hq)⟩
  alive t ha := by
    rcases h₂.alive t ha with ha | ⟨q, hq⟩
    · exact h₁.alive t ha
    · by_cases ha : (s₁.tcb t).Alive
      · exact h₁.alive t ha
      · exact .inr ⟨q, (h₁.dead t ha).2 q hq⟩

/-- Only one control block is written, and only its task gets in a queue. -/
theorem MtxKeeps.one (t : Tsk) (hother : ∀ u, u ≠ t → s'.tcb u = s.tcb u)
    (hfields : (s'.tcb t).mtxlist = (s.tcb t).mtxlist ∧ (s'.tcb t).bpriority = (s.tcb t).bpriority)
    (hmtx : s'.mtxtsk = s.mtxtsk ∧ s'.ceilpri = s.ceilpri ∧
      ∀ m, s'.objatr (.mtx, m) = s.objatr (.mtx, m))
    (hwaits : ∀ m, s'.WaitsMtx t m → s.WaitsMtx t m) (hnodup : s.MtxNodup → s'.MtxNodup)
    (hqueue : ∀ u q, u ≠ t → u ∈ s'.queue q → u ∈ s.queue q)
    (hself : s.MtxNodup → ∀ m, t ∈ s'.queue (.mtx, m) → s'.WaitsMtx t m ∨
      t ∈ s.queue (.mtx, m) ∧ (s.WaitsMtx t m → s'.WaitsMtx t m) ∧
        (¬(s.tcb t).Alive → ¬(s'.tcb t).Alive))
    (hdead : ¬(s'.tcb t).Alive → (s'.tcb t).state = (s.tcb t).state ∧ ∀ q, t ∈ s'.queue q →
      t ∈ s.queue q) (halive : (s'.tcb t).Alive → (s.tcb t).Alive ∨ ∃ q, t ∈ s.queue q) :
    MtxKeeps s s' where
  mtxlist u := by
    rcases eq_or_ne u t with rfl | hu
    · exact hfields.1
    · rw [hother u hu]
  bpriority u := by
    rcases eq_or_ne u t with rfl | hu
    · exact hfields.2
    · rw [hother u hu]
  mtxtsk := hmtx.1
  ceilpri := hmtx.2.1
  objatr := hmtx.2.2
  waits u m hw := by
    rcases eq_or_ne u t with rfl | hu
    · exact hwaits m hw
    · exact (waitsMtx_congr (hother u hu)).mp hw
  nodup := hnodup
  member hn u m hu' := by
    rcases eq_or_ne u t with rfl | hu
    · exact hself hn m hu'
    · refine .inr ⟨hqueue u _ hu hu', (waitsMtx_congr (hother u hu)).mpr, fun hd => ?_⟩
      rwa [hother u hu]
  dead u hd := by
    rcases eq_or_ne u t with rfl | hu
    · exact hdead hd
    · exact ⟨by rw [hother u hu], fun q => hqueue u q hu⟩
  alive u ha := by
    rcases eq_or_ne u t with rfl | hu
    · exact halive ha
    · exact .inl (hother u hu ▸ ha)

theorem MtxKeeps.write (t : Tsk) (hother : ∀ u, u ≠ t → s'.tcb u = s.tcb u)
    (hqueue : s'.queue = s.queue)
    (hfields : (s'.tcb t).mtxlist = (s.tcb t).mtxlist ∧ (s'.tcb t).bpriority = (s.tcb t).bpriority)
    (hmtx : s'.mtxtsk = s.mtxtsk ∧ s'.ceilpri = s.ceilpri ∧
      ∀ m, s'.objatr (.mtx, m) = s.objatr (.mtx, m))
    (hwaits : ∀ m, s'.WaitsMtx t m ↔ s.WaitsMtx t m)
    (hstate : (s'.tcb t).Alive ∧ (s.tcb t).Alive ∨ (s'.tcb t).state = (s.tcb t).state) :
    MtxKeeps s s' := by
  have halive : (s'.tcb t).Alive ↔ (s.tcb t).Alive :=
    hstate.elim (fun h => iff_of_true h.1 h.2) alive_congr
  refine .one t hother hfields hmtx (fun m => (hwaits m).mp) (fun hn m => hqueue ▸ hn m)
    (fun u q _ hu => hqueue ▸ hu) (fun _ m ht => .inr ⟨hqueue ▸ ht, (hwaits m).mpr, halive.not.mpr⟩)
    (fun hd => ⟨?_, fun q ht => hqueue ▸ ht⟩) fun ha => .inl (halive.mp ha)
  exact hstate.resolve_left fun h => hd h.1

/-- Fields that the waits and the mutexes do not depend on. -/
theorem MtxKeeps.upd (t : Tsk) (f : TaskCB → TaskCB)
    (hf : (f (s.tcb t)).state = (s.tcb t).state ∧ (f (s.tcb t)).wspec = (s.tcb t).wspec ∧
      (f (s.tcb t)).wid = (s.tcb t).wid ∧ (f (s.tcb t)).mtxlist = (s.tcb t).mtxlist ∧
      (f (s.tcb t)).bpriority = (s.tcb t).bpriority) : MtxKeeps s (s.upd t f) := by
  obtain ⟨hstate, hspec, hwid, hfields⟩ := hf
  refine .write t (fun u hu => upd_of_ne hu) rfl (by rwa [upd_self]) ⟨rfl, rfl, fun _ =>
    rfl⟩ (fun m => ?_)
    (.inr (by rwa [upd_self]))
  unfold WaitsMtx waitQueue
  rw [upd_self, hstate, hspec, hwid]

theorem MtxKeeps.same (htcb : s'.tcb = s.tcb) (hqueue : s'.queue = s.queue)
    (hmtx : s'.mtxtsk = s.mtxtsk ∧ s'.ceilpri = s.ceilpri ∧
      ∀ m, s'.objatr (.mtx, m) = s.objatr (.mtx, m)) :
    MtxKeeps s s' :=
  .write 0 (fun u _ => by rw [htcb]) hqueue (by rw [htcb]; exact ⟨rfl, rfl⟩) hmtx
    (fun _ => waitsMtx_congr (by rw [htcb])) (.inr (by rw [htcb]))

theorem MtxKeeps.note (e : KernEvent) : MtxKeeps s (s.note e) :=
  .same rfl rfl ⟨rfl, rfl, fun _ => rfl⟩

theorem MtxKeeps.touch (t : Tsk) : MtxKeeps s (s.touch t) := .same rfl rfl ⟨rfl, rfl, fun _ => rfl⟩

theorem MtxKeeps.toRdv (t : Tsk) (atr : ℕ) : MtxKeeps s (s.toRdv t atr) :=
  .same rfl rfl ⟨rfl, rfl, fun _ => rfl⟩

theorem MtxKeeps.leave (t : Tsk) (hother : ∀ u, u ≠ t → s'.tcb u = s.tcb u)
    (hqueue : ∀ q, s'.queue q = (s.queue q).erase t)
    (hfields : (s'.tcb t).mtxlist = (s.tcb t).mtxlist ∧ (s'.tcb t).bpriority = (s.tcb t).bpriority)
    (hmtx : s'.mtxtsk = s.mtxtsk ∧ s'.ceilpri = s.ceilpri ∧
      ∀ m, s'.objatr (.mtx, m) = s.objatr (.mtx, m))
    (hwaits : ∀ m, s'.WaitsMtx t m → s.WaitsMtx t m)
    (hdead : ¬(s'.tcb t).Alive → (s'.tcb t).state = (s.tcb t).state)
    (halive : (s'.tcb t).Alive → (s.tcb t).Alive ∨ ∃ q, t ∈ s.queue q) : MtxKeeps s s' := by
  refine .one t hother hfields hmtx hwaits (fun hn m => ?_) (fun u q _ hu => ?_) (fun hn m ht => ?_)
    (fun hd => ⟨hdead hd, fun q ht => ?_⟩) halive
  · rw [hqueue]
    exact (hn m).erase t
  · exact List.mem_of_mem_erase (hqueue q ▸ hu)
  · rw [hqueue, (hn m).mem_erase_iff] at ht
    exact absurd rfl ht.1
  · exact List.mem_of_mem_erase (hqueue q ▸ ht)

theorem MtxKeeps.release (h : (∃ q, t ∈ s.queue q) ∨ (s.tcb t).state.isWait) :
    MtxKeeps s (s.waitRelease t) := by
  have hmtx : (s.waitRelease t).mtxtsk = s.mtxtsk ∧ (s.waitRelease t).ceilpri = s.ceilpri := by
    rw [waitRelease_eq]
    exact ⟨rfl, rfl⟩
  refine .leave t (fun u hu => waitRelease_of_ne hu) (fun q => waitRelease_queue q) ?_
    ⟨hmtx.1, hmtx.2, fun m => by rw [waitRelease_objatr]⟩ (fun m hw => ?_) (fun hd => ?_) fun _ =>
      h.elim .inr fun hw => .inl (alive_of_isWait hw)
  · rw [waitRelease_self, TaskCB.released]
    split_ifs <;> exact ⟨rfl, rfl⟩
  · have hwait := hw.1
    rw [waitRelease_self, isWait_released] at hwait
    cases hwait
  · refine absurd ?_ hd
    rw [waitRelease_self, TaskCB.released]
    unfold TaskCB.Alive
    split_ifs <;> simp

theorem MtxKeeps.cancel (t : Tsk) : MtxKeeps s (s.waitCancel t) := by
  have hself : (s.waitCancel t).tcb t = { s.tcb t with timed := false } := by
    rw [waitCancel, queRemove_tcb, upd_self]
  refine .leave t (fun u hu => by rw [waitCancel, queRemove_tcb, upd_of_ne hu]) (fun _ => rfl) ?_
    ⟨rfl, rfl, fun _ => rfl⟩ (fun m hw => ?_) (fun _ => by rw [hself]) fun ha => .inl ?_
  · rw [hself]
    exact ⟨rfl, rfl⟩
  · unfold WaitsMtx waitQueue at hw ⊢
    rwa [hself] at hw
  · rw [hself] at ha
    exact ha

theorem MtxKeeps.wakeup (q : QueueId) (n : ℕ) (s : Kern) : MtxKeeps s (wakeup q n s) := by
  induction n generalizing s with
  | zero => exact .refl s
  | succ n ih =>
    unfold Kern.wakeup
    split
    · exact .refl s
    · next u us hq => exact (MtxKeeps.release (.inl ⟨q, hq ▸ List.mem_cons_self⟩)).trans (ih _)

/-- The task that is put in its place waits, in the queue of a mutex only where it is to wait. -/
theorem MtxKeeps.requeue (hw : (s.tcb t).state.isWait) (hq : q.1 = .mtx → s.WaitsMtx t q.2) :
    MtxKeeps s (s.requeue t q) := by
  have hmem {u : Tsk} {p : QueueId} (hu : u ≠ t) (h : u ∈ (s.requeue t q).queue p) :
      u ∈ s.queue p := by
    unfold Kern.requeue at h
    by_cases hpq : p = q
    · rw [hpq, setQueue_self] at h
      rw [hpq]
      exact List.mem_of_mem_erase (List.mem_of_ne_of_mem hu ((queueInsertTpri_perm _ _ _).subset h))
    · rwa [setQueue_of_ne hpq] at h
  have halive : (s.tcb t).Alive := alive_of_isWait hw
  refine .one t (fun _ _ => rfl) ⟨rfl, rfl⟩ ⟨rfl, rfl, fun _ => rfl⟩ (fun _ h => h) (fun hn m => ?_)
    (fun u p => hmem) (fun _ m ht => ?_) (fun hd => absurd halive hd) .inl
  · unfold Kern.requeue
    by_cases hpq : ((.mtx, m) : QueueId) = q
    · rw [hpq, setQueue_self, gcbChangePriority, (queueInsertTpri_perm _ _ _).nodup_iff,
        List.nodup_cons, ← hpq, (hn m).mem_erase_iff]
      exact ⟨fun h => h.1 rfl, (hn m).erase t⟩
    · rw [setQueue_of_ne hpq]
      exact hn m
  · by_cases hpq : ((.mtx, m) : QueueId) = q
    · left
      have hwait := hq (by rw [← hpq])
      rwa [← hpq] at hwait
    · unfold Kern.requeue at ht
      rw [setQueue_of_ne hpq] at ht
      exact .inr ⟨ht, id, id⟩

/-! ## Changes of priority -/

theorem releaseMutex_none (s : Kern) (t : Tsk) : (s.releaseMutex t none).1 = s := by
  have hlist :
    (fun c : TaskCB => { c with
      mtxlist := c.mtxlist.filter fun m => some m ≠ (none : Option ID) }) =
      id := by
    funext c
    simp
  unfold releaseMutex
  dsimp only
  rw [hlist]
  simp [Kern.upd]

theorem waitsMtx_of_wspec (hw : (s.tcb t).state.isWait) (hspec : (s.tcb t).wspec.kind = some .mtx) :
    s.WaitsMtx t (s.tcb t).wid := by
  refine ⟨hw, ?_⟩
  unfold waitQueue
  rw [hspec]
  rfl

theorem MtxKeeps.mtxChgPri (oldpri : ℕ) (hw : (s.tcb t).state.isWait)
    (hspec : (s.tcb t).wspec.kind = some .mtx) :
    MtxKeeps s (s.mtxChgPri t oldpri).1 := by
  refine (MtxKeeps.requeue (q := (.mtx, (s.tcb t).wid)) hw fun _ =>
    waitsMtx_of_wspec hw hspec).trans ?_
  unfold Kern.mtxChgPri
  dsimp only
  split_ifs
  · split
    · exact .refl _
    · split_ifs
      · exact .refl _
      · rw [releaseMutex_none]
        exact .refl _
      · exact .refl _
  · exact .refl _

theorem MtxKeeps.mtxRelWai (t : Tsk) : MtxKeeps s (s.mtxRelWai t).1 := by
  unfold Kern.mtxRelWai
  split
  · exact .refl s
  · split_ifs
    · rw [releaseMutex_none]
      exact .refl s
    · exact .refl s

theorem MtxKeeps.chgPriHook (served oldpri : ℕ) (hw : (s.tcb t).state.isWait) :
    MtxKeeps s (s.chgPriHook t served oldpri).1 := by
  unfold Kern.chgPriHook
  split
  · next hspec => exact .mtxChgPri oldpri hw (by rw [hspec]; rfl)
  · next hspec => exact .mtxChgPri oldpri hw (by rw [hspec]; rfl)
  · next k hk hspec =>
    have hrequeue : MtxKeeps s (s.requeue t (k, (s.tcb t).wid)) := .requeue hw fun e => absurd e hk
    dsimp only
    split_ifs
    · exact hrequeue.trans (.wakeup ..)
    · exact hrequeue
  · exact .refl s

theorem MtxKeeps.changePriority (t : Tsk) (served p : ℕ) :
    MtxKeeps s (s.changePriority t served p).1 := by
  have hupd : MtxKeeps s ((s.upd t fun c => { c with priority := p }).touch t) :=
    (MtxKeeps.upd t (fun c => { c with priority := p }) ⟨rfl, rfl, rfl, rfl, rfl⟩).trans (.touch t)
  unfold Kern.changePriority
  dsimp only
  split_ifs with hw
  · exact hupd.trans (.chgPriHook served _ hw)
  · exact hupd

theorem MtxKeeps.chain (served depth : ℕ) (r : Kern × Option (Tsk × ℕ)) :
    MtxKeeps r.1 (chain served depth r) := by
  induction depth generalizing r with
  | zero => exact .refl r.1
  | succ depth ih =>
    unfold Kern.chain
    split
    · exact .refl r.1
    · exact (MtxKeeps.changePriority ..).trans (ih _)

theorem MtxKeeps.changeTaskPriority (t : Tsk) (h : Hook) (p : ℕ) :
    MtxKeeps s (s.changeTaskPriority t h p) :=
  .chain h.served h.depth (s, some (t, p))

theorem MtxKeeps.relWaiHook (t : Tsk) (h : Hook) : MtxKeeps s (s.relWaiHook t h) := by
  unfold Kern.relWaiHook
  split
  · split_ifs
    · exact .wakeup ..
    · exact .refl s
  · exact (MtxKeeps.mtxRelWai t).trans (.chain ..)
  · exact .refl s

theorem MtxKeeps.releaseNg (h : Hook) (hw : (s.tcb t).state.isWait) :
    MtxKeeps s (s.waitReleaseNg t h) :=
  (MtxKeeps.release (.inr hw)).trans (.relWaiHook t h)

theorem MtxKeeps.serve (q : QueueId) (served : List Tsk) : MtxKeeps s (s.serve q served) := by
  unfold Kern.serve
  induction served generalizing s with
  | nil => exact .refl s
  | cons u us ih =>
    rw [List.foldl_cons]
    split_ifs with hu
    · exact (MtxKeeps.release (.inl ⟨q, hu⟩)).trans ih
    · exact ih

theorem MtxKeeps.raiseHolder (t : Tsk) (h : Hook) (mtxtsk : Tsk) (atr : ℕ) :
    MtxKeeps s (s.raiseHolder t h mtxtsk atr) := by
  unfold Kern.raiseHolder
  split_ifs
  · exact .changeTaskPriority ..
  · exact .refl s

/-! ## Waits for something else -/

/-- The task in execution enters a wait that is not one for a mutex. -/
theorem MtxKeeps.entered (runs : s.Runs t) {w : WaitSpec} {wid : ID} {timed : Bool} {atr : ℕ}
    (hw : w.kind ≠ some .mtx) (hother : ∀ u, u ≠ t → s'.tcb u = s.tcb u)
    (hself : s'.tcb t = (s.tcb t).entered w wid timed atr)
    (hmtx : s'.mtxtsk = s.mtxtsk ∧ s'.ceilpri = s.ceilpri ∧
      ∀ m, s'.objatr (.mtx, m) = s.objatr (.mtx, m))
    (hmtxq : ∀ m, s'.queue (.mtx, m) = s.queue (.mtx, m))
    (hqueue : ∀ u q, u ≠ t → u ∈ s'.queue q → u ∈ s.queue q) : MtxKeeps s s' := by
  have hnew : (s'.tcb t).Alive := alive_of_isWait (by rw [hself]; exact entered_isWait runs)
  refine .one t hother (by rw [hself]; exact ⟨rfl, rfl⟩) hmtx (fun m hwaits => ?_) (fun hn m =>
    hmtxq m ▸ hn m)
    hqueue (fun _ m ht => .inr ⟨hmtxq m ▸ ht, fun h => absurd h runs.not_waitsMtx, fun h =>
      absurd runs.alive h⟩)
    (fun hd => absurd hnew hd) fun _ => .inl runs.alive
  have hkind := (waitQueue_eq hwaits.2).1
  rw [hself] at hkind
  exact absurd hkind hw

theorem MtxKeeps.alone (runs : s.Runs t) {w : WaitSpec} (timed : Bool) (atr : ℕ)
    (hw : w.kind = none) :
    MtxKeeps s (s.waitAlone t w timed atr) :=
  .entered runs (by rw [hw]; nofun) (fun _ hu => waitAlone_of_ne hu ..) (waitAlone_self ..)
    ⟨rfl, rfl, fun _ => rfl⟩ (fun _ => rfl) fun _ _ _ h => h

theorem MtxKeeps.makeWait (runs : s.Runs t) {k : WaitKind} (hk : k ≠ .mtx) (id : ID) (atr : ℕ)
    (tmout : ℤ) :
    MtxKeeps s (s.gcbMakeWait t k id atr tmout) := by
  refine .entered runs (by rw [wspec_kind]; exact fun e => hk (Option.some.inj e))
    (fun _ hu => gcbMakeWait_of_ne hu ..) (gcbMakeWait_self ..) ⟨rfl, rfl, fun _ => rfl⟩
    (fun m => setQueue_of_ne (fun e => hk (congrArg Prod.fst e).symm) _) fun u q hu hmem => ?_
  unfold Kern.gcbMakeWait enqueue at hmem
  by_cases hq : q = (k, id)
  · rw [hq, setQueue_self] at hmem
    rw [hq]
    exact List.mem_of_ne_of_mem hu ((enqueue_perm _ _ _).subset hmem)
  · rwa [setQueue_of_ne hq] at hmem

theorem MtxKeeps.makeWaitWithDiswai (runs : s.Runs t) {k : WaitKind} (hk : k ≠ .mtx) (id : ID)
    (atr : ℕ) (tmout : ℤ) : MtxKeeps s (s.gcbMakeWaitWithDiswai t k id atr tmout).1 := by
  unfold gcbMakeWaitWithDiswai
  split_ifs
  · exact .refl s
  · exact .refl s
  · exact .makeWait runs hk ..

/-- The task waits on, no longer in a queue or in the call queue of a port. -/
theorem MtxKeeps.moved (t : Tsk) (hw : (s.tcb t).state.isWait) (hold : ∀ m, ¬s.WaitsMtx t m)
    (hnew : ∀ m, ¬s'.WaitsMtx t m) (hother : ∀ u, u ≠ t → s'.tcb u = s.tcb u)
    (hfields : (s'.tcb t).mtxlist = (s.tcb t).mtxlist ∧ (s'.tcb t).bpriority = (s.tcb t).bpriority)
    (hstate : (s'.tcb t).state = (s.tcb t).state)
    (hmtx : s'.mtxtsk = s.mtxtsk ∧ s'.ceilpri = s.ceilpri ∧
      ∀ m, s'.objatr (.mtx, m) = s.objatr (.mtx, m))
    (hmtxq : ∀ m, (s'.queue (.mtx, m)).Sublist (s.queue (.mtx, m)))
    (hqueue : ∀ u q, u ≠ t → u ∈ s'.queue q → u ∈ s.queue q) : MtxKeeps s s' := by
  have halive := alive_of_isWait hw
  exact .one t hother hfields hmtx (fun m h => absurd h (hnew m)) (fun hn m =>
    (hn m).sublist (hmtxq m)) hqueue
    (fun _ m ht => .inr ⟨(hmtxq m).subset ht, fun h => absurd h (hold m), fun h => absurd halive h⟩)
    (fun hd => absurd ((alive_congr hstate).mpr halive) hd) fun _ => .inl halive

theorem not_waitsMtx (h : s.waitQueue t ≠ some (.mtx, m)) : ¬s.WaitsMtx t m := fun hw => h hw.2

theorem not_waitsMtx_rdv (h : (s.tcb t).wspec = .rdv) : ¬s.WaitsMtx t m := by
  refine not_waitsMtx ?_
  rw [waitQueue_eq_none.mpr (by rw [h]; rfl)]
  nofun

theorem MtxKeeps.toCal (hw : (s.tcb u).state.isWait) (hrdv : (s.tcb u).wspec = .rdv) (id : ID)
    (atr : ℕ) :
    MtxKeeps s (s.toCal u id atr) := by
  refine .moved u hw (fun m => not_waitsMtx_rdv hrdv) (fun m => not_waitsMtx ?_)
    (fun v hv => ?_) ?_ ?_
    ⟨rfl, rfl, fun _ => rfl⟩ (fun m => ?_) fun v q hv hmem => ?_
  · simp [waitQueue, Kern.toCal, setWait, enqueue]
  · simp [Kern.toCal, setWait, enqueue, upd_of_ne hv]
  · simp [Kern.toCal, setWait, enqueue]
  · simp [Kern.toCal, setWait, enqueue]
  · unfold Kern.toCal enqueue
    rw [setQueue_of_ne (by simp)]
    exact List.Sublist.refl _
  · unfold Kern.toCal enqueue at hmem
    by_cases hq : q = (.cal, id)
    · rw [hq, setQueue_self] at hmem
      rw [hq]
      exact List.mem_of_ne_of_mem hv ((enqueue_perm _ _ _).subset hmem)
    · rwa [setQueue_of_ne hq] at hmem

theorem MtxKeeps.accept (hw : (s.tcb u).state.isWait) (hq : ∀ m, s.waitQueue u ≠ some (.mtx, m)) :
    MtxKeeps s ((s.waitCancel u).setWait u .rdv 0) := by
  refine .moved u hw (fun m => not_waitsMtx (hq m)) (fun m => not_waitsMtx_rdv ?_)
    (fun v hv => ?_) ?_ ?_
    ⟨rfl, rfl, fun _ => rfl⟩ (fun m => List.erase_sublist) fun v q _ hmem =>
      List.mem_of_mem_erase hmem
  · simp [setWait, waitCancel]
  · rw [setWait, upd_of_ne hv, waitCancel, queRemove_tcb, upd_of_ne hv]
  · simp [setWait, waitCancel]
  · simp [setWait, waitCancel]

theorem MtxKeeps.held {f : TaskCB → TaskCB} (h : (s.tcb t).Held (f (s.tcb t)))
    (halive : (s.tcb t).Alive) (halive' : (f (s.tcb t)).Alive)
    (hfields : (f (s.tcb t)).mtxlist = (s.tcb t).mtxlist ∧
      (f (s.tcb t)).bpriority = (s.tcb t).bpriority) : MtxKeeps s (s.upd t f) := by
  refine .write t (fun u hu => upd_of_ne hu) rfl (by rwa [upd_self]) ⟨rfl, rfl, fun _ =>
    rfl⟩ (fun m => ?_)
    (.inl ⟨by rwa [upd_self], halive⟩)
  unfold WaitsMtx waitQueue
  rw [upd_self, h.isWait, h.wspec, h.wid]

end SmpTKernel
