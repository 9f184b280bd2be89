import SmpTKernel.KernelCeilingRuns

/-!
# Who holds a mutex

A mutex is in the list of the task that holds it and in no other; when it is given up it goes to the
first task that waits for it, or to nobody. In the runs of `KernOp.Straight` the queue of a mutex
has the waiting tasks and no others.
-/

namespace SmpTKernel

open Kern

variable {s s' : Kern} {t u : Tsk} {m id : ID} {q : QueueId} {x : Option Tsk} {l : List ID}
  {h : Hook}

namespace Kern

/-- The tasks that wait for the mutex, in the order of its queue. -/
def waiters (s : Kern) (m : ID) : List Tsk :=
  (s.queue (.mtx, m)).filter fun t => (s.tcb t).state.isWait ∧ s.waitQueue t = some (.mtx, m)

/-- The mutexes that somebody waits for are held. -/
def Awaited (s : Kern) : Prop := ∀ m, s.queue (.mtx, m) ≠ [] → s.mtxtsk m ≠ none

end Kern

structure OwnersRight (s : Kern) : Prop where
  owner : ∀ m t, s.objatr (.mtx, m) ≠ none → s.mtxtsk m = some t →
    (s.tcb t).Alive ∧ (s.tcb t).mtxlist.count m = 1 ∧
      ∀ u, u ≠ t → (s.tcb u).state ≠ .nonexist → m ∉ (s.tcb u).mtxlist
  free : ∀ m, s.objatr (.mtx, m) ≠ none →
    (s.mtxtsk m = none ↔ ∀ t, (s.tcb t).state ≠ .nonexist → m ∉ (s.tcb t).mtxlist)
  awaited : ∀ t m, s.WaitsMtx t m → s.mtxtsk m ≠ none

/-- The first task that waits for the mutex gets it, the others wait on. -/
structure Passed (s s' : Kern) (m : ID) : Prop where
  owner : s'.mtxtsk m = (s.waiters m).head?
  rest : s'.waiters m = (s.waiters m).tail

/-- These mutexes are given up, and no others. -/
structure GivesUp (s s' : Kern) (given : ID → Prop) : Prop where
  passed : ∀ m, given m → Passed s s' m
  kept : ∀ m, ¬given m → s'.mtxtsk m = s.mtxtsk m

/-- The task is not there any more; `s.terLeave t h` is the state in which its own wait is over. -/
def EndsRight (s : Kern) (t : Tsk) (h : Hook) (s' : Kern) : Prop :=
  GivesUp (s.terLeave t h) s' fun m => s.objatr (.mtx, m) ≠ none ∧ s.mtxtsk m = some t

/-- What becomes of the mutexes in a call that gives them up. -/
def HandsOver (s : Kern) : KernOp → Prop
  | .unlMtx t h id chk =>
    (s.unlMtx t h id chk).2 = some E_OK → GivesUp s (s.unlMtx t h id chk).1 fun m => m = id
  | .extTsk t h => EndsRight s t h (s.extTsk t h).1
  | .exdTsk t h => EndsRight s t h (s.exdTsk t h).1
  | .terTsk t h chk => (s.terTsk t h chk).2 = some E_OK → EndsRight s t h (s.terTsk t h chk).1
  | _ => True

/-! ## Queues and waiting tasks -/

theorem LinkInv.waiters (link : LinkInv True (x, s)) (m : ID) :
    s.waiters m = s.queue (.mtx, m) := by
  refine List.filter_eq_self.mpr fun t ht => ?_
  obtain ⟨hactive, hqueue⟩ := link.waits t (.mtx, m) (.inl trivial) ht
  exact decide_eq_true ⟨hactive.1, hqueue⟩

theorem LinkInv.mem_of_waits (link : LinkInv True (none, s)) (hw : s.WaitsMtx t m) :
    t ∈ s.queue (.mtx, m) :=
  link.linked t (.mtx, m) ⟨hw.1, nofun⟩ hw.2

theorem LinkInv.not_mem_other (link : LinkInv True (x, s)) (ht : t ∈ s.queue (.mtx, m))
    (hid : id ≠ m) :
    t ∉ s.queue (.mtx, id) := by
  intro hmem
  have h₁ := (link.waits t _ (.inl trivial) ht).2
  rw [(link.waits t _ (.inl trivial) hmem).2] at h₁
  exact hid (congrArg Prod.snd (Option.some.inj h₁))

theorem MtxKeeps.awaited (k : MtxKeeps s s') (link : LinkInv True (x, s')) (hs : s.Awaited)
    (hnodup : s.MtxNodup) (hmem : ∀ t m, s.WaitsMtx t m → x ≠ some t → t ∈ s.queue (.mtx, m)) :
    s'.Awaited := by
  intro m hq
  obtain ⟨t, ht⟩ := List.exists_mem_of_ne_nil _ hq
  rw [k.mtxtsk]
  refine hs m (List.ne_nil_of_mem (a := t) ?_)
  rcases k.member hnodup t m ht with hw | ⟨ht, -⟩
  · exact hmem t m (k.waits t m hw) fun e => (link.waits t _ (.inl trivial) ht).1.2 e.symm
  · exact ht

/-! ## A mutex is passed on -/

theorem passMutex_mtxtsk (s : Kern) (h : Hook) (m : ID) :
    (s.passMutex h m).mtxtsk = Function.update s.mtxtsk m (s.queue (.mtx, m)).head? := by
  unfold passMutex
  split
  · next hq =>
    rw [hq]
    rfl
  · next u us hq =>
    have hmtxtsk : (s.waitRelease u).mtxtsk = s.mtxtsk := by
      rw [waitRelease_eq]
      rfl
    have hhold : ((s.waitRelease u).holdMutex u m).mtxtsk = Function.update s.mtxtsk m
        (s.queue (.mtx, m)).head? := by
      rw [hq]
      exact congrArg (Function.update · m (some u)) hmtxtsk
    dsimp only
    split_ifs
    · rw [(MtxKeeps.changeTaskPriority ..).mtxtsk, hhold]
    · exact hhold

theorem passMutex_queue_nil (h : Hook) (hq : s.queue (.mtx, m) = []) :
    (s.passMutex h m).queue = s.queue := by
  unfold passMutex
  rw [hq]

theorem passMutex_queue_cons {us : List Tsk} (h : Hook) (hq : s.queue (.mtx, m) = u :: us)
    (q : QueueId) :
    (s.passMutex h m).queue q = (s.queue q).erase u := by
  have hidle : (((s.waitRelease u).holdMutex u m).tcb u).state.isWait = false := by
    rw [Kern.holdMutex, upd_self]
    change ((s.waitRelease u).tcb u).state.isWait = false
    rw [waitRelease_self, isWait_released]
  have hhold : ((s.waitRelease u).holdMutex u m).queue q = (s.queue q).erase u :=
    waitRelease_queue q
  unfold passMutex
  rw [hq]
  dsimp only
  split_ifs
  · rw [changeTaskPriority_queue u h _ hidle]
    exact hhold
  · exact hhold

/-- The queue of the mutex loses its first task, and the other queues of mutexes stay. -/
theorem LinkInv.passMutex_queue (link : LinkInv True (x, s)) (h : Hook) (m id : ID) :
    (s.passMutex h m).queue (.mtx, id) =
      if id = m then (s.queue (.mtx, m)).tail else s.queue (.mtx, id) := by
  cases hq : s.queue (.mtx, m) with
  | nil =>
    rw [passMutex_queue_nil h hq]
    split_ifs with hid
    · rw [hid, hq]
      rfl
    · rfl
  | cons u us =>
    have hu : u ∈ s.queue (.mtx, m) := hq ▸ List.mem_cons_self
    rw [passMutex_queue_cons h hq]
    split_ifs with hid
    · rw [hid, hq]
      exact List.erase_cons_head u us
    · exact List.erase_of_not_mem (link.not_mem_other hu hid)

theorem LinkInv.signal (h : Hook) : ∀ (l : List ID) {s : Kern}, LinkInv True (x, s) → l.Nodup →
    LinkInv True (x, l.foldl (fun s m => s.passMutex h m) s) ∧
      ∀ m, (l.foldl (fun s m => s.passMutex h m) s).mtxtsk m =
          (if m ∈ l then (s.queue (.mtx, m)).head? else s.mtxtsk m) ∧
        (l.foldl (fun s m => s.passMutex h m) s).queue (.mtx, m) =
          if m ∈ l then (s.queue (.mtx, m)).tail else s.queue (.mtx, m) := by
  intro l
  induction l with
  | nil => exact fun link _ => ⟨link, fun _ => ⟨rfl, rfl⟩⟩
  | cons a l ih =>
    intro s link hnodup
    obtain ⟨ha, hnodup⟩ := List.nodup_cons.mp hnodup
    obtain ⟨hlink, hl⟩ := ih (link.steps (passMutex_steps h a)) hnodup
    refine ⟨hlink, fun m => ?_⟩
    obtain ⟨hmtxtsk, hqueue⟩ := hl m
    rw [List.foldl_cons, hmtxtsk, hqueue, passMutex_mtxtsk, link.passMutex_queue,
      Function.update_apply]
    by_cases hm : m = a
    · subst hm
      simp [ha]
    · simp [hm]

theorem LinkInv.passed {s₁ : Kern} (link : LinkInv True (x, s)) (link' : LinkInv True (none, s'))
    (howner : s'.mtxtsk m = (s.queue (.mtx, m)).head?)
    (hrest : s'.queue (.mtx, m) = (s.queue (.mtx, m)).tail) (hs : s₁.waiters m = s.waiters m) :
    Passed s₁ s' m := by
  refine ⟨?_, ?_⟩
  · rw [hs, link.waiters, howner]
  · rw [hs, link.waiters, link'.waiters, hrest]

/-! ## The calls -/

theorem MtxKeeps.terLeave (t : Tsk) (h : Hook) : MtxKeeps s (s.terLeave t h) := by
  unfold Kern.terLeave
  split_ifs
  · exact .upd t (fun c => { c with ready := false }) ⟨rfl, rfl, rfl, rfl, rfl⟩
  · exact (MtxKeeps.cancel t).trans (.relWaiHook t h)
  · exact .refl s

/-- The termination does not give the task a priority. -/
def StraightEnd (s : Kern) (t : Tsk) (h : Hook) : Prop :=
  (s.tcb t).state.isWait → t ∉ (s.waitCancel t).hookTasks t h

theorem LinkInv.terLeave (link : LinkInv True (none, s)) (ha : (s.tcb t).Alive)
    (straight : StraightEnd s t h) :
    LinkInv True (some t, s.terLeave t h) :=
  link.steps (terLeave_steps t h ha.1 ha.2 fun _ => straight)

theorem CeilInv.mem_mtxlist (inv : CeilInv none [] s) (ha : (s.tcb t).Alive) (m : ID) :
    m ∈ (s.tcb t).mtxlist ↔ s.objatr (.mtx, m) ≠ none ∧ s.mtxtsk m = some t := by
  refine ⟨fun hm => ⟨?_, ?_⟩, fun hm => (inv.holder_iff ha.1 hm.1).mpr hm.2⟩
  · exact ((inv.holds t ha nofun).held m hm).2
  · exact ((inv.holds t ha nofun).held m hm).1

theorem LinkInv.ends (link : LinkInv True (none, s)) (inv : CeilInv none [] s)
    (ha : (s.tcb t).Alive) (straight : StraightEnd s t h) (link' : LinkInv True (none, s'))
    (hmtxtsk : s'.mtxtsk = (s.terTask t h).mtxtsk) (hqueue : s'.queue = (s.terTask t h).queue) :
    EndsRight s t h s' := by
  have hkeeps : MtxKeeps s (s.terLeave t h) := .terLeave t h
  have hleave := link.terLeave ha straight
  have hnodup : ((s.terLeave t h).tcb t).mtxlist.Nodup := by
    rw [hkeeps.mtxlist]
    exact (inv.holds t ha nofun).nodup
  obtain ⟨-, hsignal⟩ := LinkInv.signal h ((s.terLeave t h).tcb t).mtxlist hleave hnodup
  have hmem (m : ID) : m ∈ ((s.terLeave t h).tcb t).mtxlist ↔ s.objatr (.mtx, m) ≠ none ∧
      s.mtxtsk m = some t := by
    rw [hkeeps.mtxlist]
    exact inv.mem_mtxlist ha m
  refine ⟨fun m hm => ?_, fun m hm => ?_⟩
  · obtain ⟨h₁, h₂⟩ := hsignal m
    rw [if_pos ((hmem m).mpr hm)] at h₁ h₂
    exact hleave.passed link' (by rw [hmtxtsk]; exact h₁) (by rw [hqueue]; exact h₂) rfl
  · have h₁ := (hsignal m).1
    rw [if_neg fun c => hm ((hmem m).mp c)] at h₁
    rw [hmtxtsk]
    exact h₁

/-- The task in execution gives the mutex up before it is passed on. -/
theorem releaseMutex_idle (ht : (s.tcb t).state.isWait = false) (h : Hook) (x : Option ID) :
    (chain h.served h.depth (s.releaseMutex t x)).queue = s.queue ∧
      (chain h.served h.depth (s.releaseMutex t x)).mtxtsk = s.mtxtsk := by
  refine ⟨?_, (MtxKeeps.chain ..).mtxtsk⟩
  have hidle : ((s.releaseMutex t x).1.tcb t).state.isWait = false := by
    unfold releaseMutex
    dsimp only
    rw [upd_self]
    exact ht
  have hnone : (s.releaseMutex t x).2 = none ∨ ∃ p, (s.releaseMutex t x).2 = some (t, p) := by
    unfold releaseMutex
    dsimp only
    split_ifs
    · exact .inr ⟨_, rfl⟩
    · exact .inl rfl
  rcases hnone with hnone | ⟨p, hp⟩
  · have hdone : chain h.served h.depth (s.releaseMutex t x) = (s.releaseMutex t x).1 := by
      unfold chain
      split
      · rfl
      · rw [hnone]
    rw [hdone]
    rfl
  · have hpair : s.releaseMutex t x = ((s.releaseMutex t x).1, some (t, p)) := Prod.ext rfl hp
    rw [hpair]
    exact changeTaskPriority_queue t h p hidle

theorem unlMtx_ok {chk : ER} (hok : (s.unlMtx t h id chk).2 = some E_OK) :
    (s.unlMtx t h id chk).1 = (chain h.served h.depth (s.releaseMutex t (some id))).passMutex
    h id := by
  revert hok
  unfold Kern.unlMtx onObj checked
  by_cases hchk : chk ≠ E_OK
  · rw [if_pos hchk]
    exact fun h => absurd (Option.some.inj h) hchk
  rw [if_neg hchk]
  cases s.objatr (.mtx, id) with
  | none => exact fun h => absurd (Option.some.inj h) (by decide)
  | some atr =>
    dsimp only
    split_ifs
    · exact fun h => absurd (Option.some.inj h) (by decide)
    · exact fun _ => rfl

theorem LinkInv.unlMtx (link : LinkInv True (none, s)) (runs : s.Runs t) {chk : ER}
    (hok : (s.unlMtx t h id chk).2 = some E_OK) :
    GivesUp s (s.unlMtx t h id chk).1 fun m => m = id := by
  have hsteps : KernSteps True (none, s) (none, (s.unlMtx t h id chk).1) := unlMtx_steps h id chk
  have link' := link.steps hsteps
  have hrelease : LinkInv True (none, chain h.served h.depth (s.releaseMutex t (some id))) :=
    link.steps ((releaseMutex_steps t (some id)).trans (chain_steps_none ..))
  obtain ⟨hqueue, hmtxtsk⟩ := releaseMutex_idle runs.not_isWait h (some id)
  have howner := passMutex_mtxtsk (chain h.served h.depth (s.releaseMutex t (some id))) h id
  rw [unlMtx_ok hok] at link' ⊢
  refine ⟨?_, fun m hm => ?_⟩
  · rintro m rfl
    refine hrelease.passed link' ?_ ?_ ?_
    · rw [howner, Function.update_self]
    · rw [hrelease.passMutex_queue, if_pos rfl]
    · rw [link.waiters, hrelease.waiters, hqueue]
  · rw [howner, Function.update_of_ne hm, hmtxtsk]

theorem LinkInv.handsOver (link : LinkInv True (none, s)) (inv : CeilInv none [] s) {op : KernOp}
    (runs : ∀ t ∈ op.caller, s.Runs t) (fits : op.Fits s) (straight : op.Straight s) :
    HandsOver s op := by
  have link' : LinkInv True (none, (op.exec s).1) :=
    link.steps (link.exec_steps runs fits fun _ => straight)
  have hruns {t : Tsk} {h : Hook} (runs : s.Runs t) : StraightEnd s t h := fun hw => by
    rw [runs.not_isWait] at hw
    cases hw
  cases op with
  | extTsk t h => exact link.ends inv (runs t rfl).alive (hruns (runs t rfl)) link' rfl rfl
  | exdTsk t h => exact link.ends inv (runs t rfl).alive (hruns (runs t rfl)) link' rfl rfl
  | terTsk t h chk =>
    intro hok
    have hexec : (s.terTsk t h chk).1 = (s.terTask t h).makeDormant t ∧ chk = E_OK ∧
        (s.tcb t).Alive := by
      revert hok
      unfold Kern.terTsk onTask checked
      split_ifs with h₁ h₂ h₃
      · intro h
        exact absurd (Option.some.inj h) h₁
      · intro h
        exact absurd (Option.some.inj h) (by decide)
      · intro h
        exact absurd (Option.some.inj h) (by decide)
      · exact fun _ => ⟨rfl, not_not.mp h₁, h₂, fun hd => h₃ ⟨hd, by decide⟩⟩
    obtain ⟨hexec, hchk, ha⟩ := hexec
    refine link.ends inv ha (straight hchk) link' ?_ ?_
    · rw [hexec]
      rfl
    · rw [hexec]
      rfl
  | unlMtx t h id chk => exact link.unlMtx (runs t rfl)
  | _ => exact trivial

/-! ## Mutexes that somebody waits for -/

theorem Awaited.congr (hs : s.Awaited) (h : ∀ m, s'.queue (.mtx, m) ≠ [] →
    s.queue (.mtx, m) ≠ [] ∧ s'.mtxtsk m = s.mtxtsk m ∨ s'.mtxtsk m ≠ none) : s'.Awaited := by
  intro m hq
  rcases h m hq with ⟨hq, he⟩ | he
  · rw [he]
    exact hs m hq
  · exact he

theorem Awaited.same (hs : s.Awaited) (hqueue : s'.queue = s.queue)
    (hmtxtsk : s'.mtxtsk = s.mtxtsk) : s'.Awaited :=
  Awaited.congr hs fun _ hq => .inl ⟨hqueue ▸ hq, by rw [hmtxtsk]⟩

theorem Awaited.keeps (hs : s.Awaited) (link : LinkInv True (none, s)) (k : MtxKeeps s s')
    (hsteps : KernSteps True (none, s) (none, s')) : s'.Awaited :=
  k.awaited (link.steps hsteps) hs (fun _ => link.nodup _ (.inl trivial)) fun _ _ hw _ =>
    link.mem_of_waits hw

theorem Awaited.pass (hs : s.Awaited) (link : LinkInv True (x, s)) (h : Hook) (m : ID) :
    (s.passMutex h m).Awaited := by
  refine Awaited.congr hs fun id hq => ?_
  rw [link.passMutex_queue] at hq
  rw [passMutex_mtxtsk, Function.update_apply]
  split_ifs at hq ⊢ with hid
  · right
    cases hqueue : s.queue (.mtx, m) with
    | nil =>
      rw [hqueue] at hq
      exact absurd rfl hq
    | cons u us => exact Option.some_ne_none u
  · exact .inl ⟨hq, rfl⟩

theorem Awaited.terTask (hs : s.Awaited) (link : LinkInv True (none, s)) (ha : (s.tcb t).Alive)
    (straight : StraightEnd s t h) : (s.terTask t h).Awaited := by
  have hleave := link.terLeave ha straight
  have hstart : (s.terLeave t h).Awaited :=
    (MtxKeeps.terLeave t h).awaited hleave hs (fun _ => link.nodup _ (.inl trivial))
      fun _ _ hw _ => link.mem_of_waits hw
  have hfold : ∀ (l : List ID) {s : Kern}, LinkInv True (some t, s) → s.Awaited →
      (l.foldl (fun s m => s.passMutex h m) s).Awaited := by
    intro l
    induction l with
    | nil => exact fun _ => id
    | cons m l ih =>
      exact fun link hs => ih (link.steps (passMutex_steps h m)) (Awaited.pass hs link h m)
  exact hfold _ hleave hstart

theorem Awaited.locMtx (hs : s.Awaited) (link : LinkInv True (none, s)) (h : Hook) (id : ID)
    (tmout : ℤ) (chk : ER) :
    (s.locMtx t h id tmout chk).1.Awaited := by
  refine onObj_ind hs fun atr _ => ?_
  split
  · exact hs
  split
  · exact hs
  split
  · exact hs
  split
  · next hfree =>
    have hhold : (s.holdMutex t id).Awaited := by
      refine Awaited.congr hs fun m hq => ?_
      change s.queue (.mtx, m) ≠ [] at hq
      change _ ∨ Function.update s.mtxtsk id (some t) m ≠ none
      rw [Function.update_apply]
      split_ifs
      · exact .inr (Option.some_ne_none t)
      · refine .inl ⟨hq, ?_⟩
        change Function.update s.mtxtsk id (some t) m = _
        rw [Function.update_of_ne ‹_›]
    have hlink : LinkInv True (none, s.holdMutex t id) :=
      link.steps (.single (.same (Same.holdMutex t id)))
    dsimp only
    unfold takeMutex
    dsimp only
    split_ifs
    · exact Awaited.keeps hhold hlink (.changeTaskPriority ..) (changeTaskPriority_steps ..)
    · exact hhold
  · next mtxtsk hheld =>
    split_ifs
    · exact hs
    · have hkeeps : MtxKeeps s (s.raiseHolder t h mtxtsk atr) := .raiseHolder ..
      have hraise : (s.raiseHolder t h mtxtsk atr).Awaited :=
        Awaited.keeps hs link hkeeps (raiseHolder_steps ..)
      refine Awaited.congr hraise fun m hq => ?_
      by_cases hm : m = id
      · right
        rw [hm]
        change (s.raiseHolder t h mtxtsk atr).mtxtsk id ≠ none
        rw [hkeeps.mtxtsk, hheld]
        exact Option.some_ne_none mtxtsk
      · refine .inl ⟨?_, rfl⟩
        have hsame : ((s.raiseHolder t h mtxtsk atr).gcbMakeWait t .mtx id atr tmout).queue
          (.mtx, m) =
            (s.raiseHolder t h mtxtsk atr).queue (.mtx, m) :=
          setQueue_of_ne (fun e => hm (congrArg Prod.snd e)) _
        rwa [hsame] at hq

theorem Awaited.exec (hs : s.Awaited) (link : LinkInv True (none, s))
    (link₀ : LinkInv False (none, s)) {op : KernOp} (runs : ∀ t ∈ op.caller, s.Runs t)
    (fits : op.Fits s) (straight : op.Straight s) :
    (op.exec s).1.Awaited := by
  by_cases hop : op.leavesMutexes
  · exact Awaited.keeps hs link (.exec link₀ runs fits hop) (link.exec_steps runs fits fun _ =>
      straight)
  have hruns {t : Tsk} {h : Hook} (runs : s.Runs t) : StraightEnd s t h := fun hw => by
    rw [runs.not_isWait] at hw
    cases hw
  cases op with
  | creTsk t ipriority chk =>
    refine checked_ind hs fun _ => ?_
    split_ifs
    · exact hs
    · exact Awaited.same hs rfl rfl
  | delTsk t chk =>
    refine onTask_ind hs fun _ _ => ?_
    split_ifs
    · exact hs
    · exact Awaited.same hs rfl rfl
  | staTsk t chk =>
    refine onTask_ind hs fun _ _ => ?_
    split_ifs
    · exact hs
    · exact Awaited.same hs rfl rfl
  | extTsk t h =>
    exact Awaited.same (Awaited.terTask hs link (runs t rfl).alive (hruns (runs t rfl))) rfl rfl
  | exdTsk t h =>
    exact Awaited.same (Awaited.terTask hs link (runs t rfl).alive (hruns (runs t rfl))) rfl rfl
  | terTsk t h chk =>
    refine checked_ind hs fun hchk => ?_
    split_ifs with h₁ h₂
    · exact hs
    · exact hs
    · exact Awaited.same (Awaited.terTask hs link ⟨h₁, fun hd => h₂ ⟨hd, by decide⟩⟩
        (straight hchk)) rfl rfl
  | chgPri t h tskpri chk =>
    refine onTask_ind hs fun _ _ => ?_
    dsimp only
    split
    · exact hs
    · have hbase :
          (s.upd t fun c => { c with bpriority := tskpri.getD (s.tcb t).ipriority }).Awaited :=
        Awaited.same hs rfl rfl
      exact Awaited.keeps hbase (link.steps (upd_steps t _ fun _ => rfl)) (.changeTaskPriority ..)
        (changeTaskPriority_steps ..)
  | creMtx id atr ceilpri chk =>
    refine checked_ind hs fun _ => ?_
    split_ifs
    · exact hs
    · refine Awaited.congr hs fun m hq => ?_
      have hqueue : (s.register .mtx id atr).queue (.mtx, m) = if m = id then
          [] else s.queue (.mtx, m) :=
        if_congr (and_iff_right rfl) rfl rfl
      change (s.register .mtx id atr).queue (.mtx, m) ≠ [] at hq
      rw [hqueue] at hq
      split_ifs at hq with hm
      · exact absurd rfl hq
      · exact .inl ⟨hq, Function.update_of_ne hm _ _⟩
  | delMtx h id chk =>
    refine onObj_ind hs fun _ _ => ?_
    have hdel {s : Kern} (hs : s.Awaited) (link : LinkInv True (none, s)) :
        (s.deleted .mtx id).Awaited :=
      Awaited.same (Awaited.keeps hs link (.wakeup (.mtx, id) _ s) (wakeup_steps ..)) rfl rfl
    split
    · exact hdel hs link
    · next t _ =>
      have hlink : LinkInv True (none, (s.releaseMutex t (some id)).1) :=
        link.steps (releaseMutex_steps ..)
      have hrelease : (s.releaseMutex t (some id)).1.Awaited := Awaited.same hs rfl rfl
      exact hdel (Awaited.keeps hrelease hlink (.chain ..) (chain_steps_none ..))
        (hlink.steps (chain_steps_none ..))
  | locMtx t h id tmout chk => exact Awaited.locMtx hs link h id tmout chk
  | unlMtx t h id chk =>
    refine onObj_ind hs fun _ _ => ?_
    split_ifs
    · exact hs
    · have hlink : LinkInv True (none, (s.releaseMutex t (some id)).1) :=
        link.steps (releaseMutex_steps ..)
      have hrelease : (s.releaseMutex t (some id)).1.Awaited := Awaited.same hs rfl rfl
      have hchain :=
        Awaited.keeps hrelease hlink (.chain h.served h.depth (s.releaseMutex t (some id)))
        (chain_steps_none ..)
      exact Awaited.pass hchain (hlink.steps (chain_steps_none ..)) h id
  | _ => exact absurd rfl hop

/-! ## Runs -/

/-- In the runs of `KernOp.Straight` a dormant task is in no queue. -/
theorem KernRun.mutexes (run : KernRun (fun s op => op.Straight s) s) :
    LinkInv True (none, s) ∧ CeilInv none [] s ∧ s.Awaited := by
  induction run with
  | init s initial =>
    refine ⟨initial.link, initial.ceil, fun m hq => absurd ?_ hq⟩
    exact initial.queue _
  | @step s run op runs fits hok ih =>
    obtain ⟨link, inv, hs⟩ := ih
    have link₀ : LinkInv False (none, s) := run.link fun h => h.elim
    refine ⟨link.steps (link.exec_steps runs fits fun _ => hok), ?_, Awaited.exec hs link link₀
      runs fits hok⟩
    by_cases hsta : ∀ t chk, op = .staTsk t chk → ∀ m, t ∉ s.queue (.mtx, m)
    · exact inv.exec link₀ runs fits hsta
    · -- a task that is in a queue waits, and the call starts nothing
      push Not at hsta
      obtain ⟨t, chk, rfl, m, ht⟩ := hsta
      have hw := (link.waits t _ (.inl trivial) ht).1.1
      refine onTask_ind inv fun _ _ => ?_
      rw [if_pos]
      · exact inv
      · exact (alive_of_isWait hw).2

theorem CeilInv.ownersRight (inv : CeilInv none [] s) (link : LinkInv True (none, s))
    (hs : s.Awaited) :
    OwnersRight s := by
  have hlisted {t : Tsk} {m : ID} (hreg : s.objatr (.mtx, m) ≠ none)
      (ht : (s.tcb t).state ≠ .nonexist) :
      m ∈ (s.tcb t).mtxlist ↔ s.mtxtsk m = some t := inv.holder_iff ht hreg
  refine ⟨fun m t hreg hm => ?_, fun m hreg => ⟨fun hnone t ht hmem => ?_, fun hall => ?_⟩,
    fun t m hw => ?_⟩
  · obtain ⟨⟨ha, -⟩, hmem⟩ := (inv.owner t m hreg hm).resolve_left List.not_mem_nil
    refine ⟨ha, List.count_eq_one_of_mem (inv.holds t ha nofun).nodup hmem, fun u hu hne hmem =>
      hu ?_⟩
    exact Option.some.inj (((hlisted hreg hne).mp hmem).symm.trans hm)
  · rw [(hlisted hreg ht).mp hmem] at hnone
    cases hnone
  · by_contra hne
    obtain ⟨t, ht⟩ := Option.ne_none_iff_exists'.mp hne
    obtain ⟨⟨ha, -⟩, hmem⟩ := (inv.owner t m hreg ht).resolve_left List.not_mem_nil
    exact hall t ha.1 hmem
  · exact hs m (List.ne_nil_of_mem (link.mem_of_waits hw))

/-- **Mutex ownership**, in every run in which no termination of a waiting task gives it a priority:
what holds in every state, and what every further such call does to the mutexes that it gives up. -/
theorem kernRun_owners (run : KernRun (fun s op => op.Straight s) s) :
    OwnersRight s ∧ ∀ op : KernOp, (∀ t ∈ op.caller, s.Runs t) → op.Fits s → op.Straight s →
      HandsOver s op := by
  obtain ⟨link, inv, hs⟩ := run.mutexes
  exact ⟨inv.ownersRight link hs, fun op runs fits straight =>
    link.handsOver inv runs fits straight⟩


/-- Task 1 holds the mutex and task 2 waits for it. -/
def handoverRun : List KernOp :=
  [.creTsk 1 10 0, .creTsk 2 5 0, .creMtx 1 TA_INHERIT 0 0, .staTsk 1 0, .staTsk 2 0,
    .locMtx 1 ⟨0, 9⟩ 1 TMO_FEVR 0, .locMtx 2 ⟨0, 9⟩ 1 TMO_FEVR 0]

theorem kernRun_owners_handover : OwnersRight (execAll handoverRun boot) ∧
    ((execAll handoverRun boot).unlMtx 1 ⟨0, 9⟩ 1 0).1.mtxtsk 1 = some 2 := by
  have run : KernRun (fun s op => op.Straight s) (execAll handoverRun boot) :=
    (KernRun.init boot boot_initial).all (by decide +kernel)
  obtain ⟨hright, hcalls⟩ := kernRun_owners run
  have hgives :=
    hcalls (.unlMtx 1 ⟨0, 9⟩ 1 0) (by decide +kernel) (by decide +kernel) trivial
      (by decide +kernel)
  refine ⟨hright, (hgives.passed 1 rfl).owner.trans ?_⟩
  decide +kernel

/-- The terminated task is still in the queue of mutex 2, and gets it. -/
theorem kernRun_owners_wrong : ¬∀ s, KernRun (fun _ _ => True) s →
    OwnersRight s ∧ ∀ op : KernOp, (∀ t ∈ op.caller, s.Runs t) → op.Fits s → HandsOver s op := by
  intro h
  have run : KernRun (fun _ _ => True) (execAll ghostRun boot) :=
    (KernRun.init boot boot_initial).all (by decide +kernel)
  have hgives :=
    (h _ run).2 (.unlMtx 2 ⟨0, 9⟩ 2 0) (by decide +kernel) (by decide +kernel) (by decide +kernel)
  have hghost : ((execAll ghostRun boot).unlMtx 2 ⟨0, 9⟩ 2 0).1.mtxtsk 2 = some 1 ∧
      (execAll ghostRun boot).waiters 2 = [] := by decide +kernel
  have howner := (hgives.passed 2 rfl).owner
  rw [hghost.1, hghost.2] at howner
  cases howner

end SmpTKernel
