import SmpTKernel.RescheduleOrder
import SmpTKernel.SchedulerRuns

/-!
# The call of `tk_rot_rdq`

After a rotation that moved a task, `reschedule` selects the tasks to execute anew: at once when a
task calls for its own place, and at the end of the critical section otherwise. It may then put
tasks that lose their processors at the end of their queues, since their time slices are over. The
call moves nothing else exactly if these tasks stand there already.
-/

namespace SmpTKernel

open LinkRing Smp

variable (numProc NUM_TSKID prid : ℕ)

/-- The rotation, with the selection that follows when a task calls for its own place; `none` if a
null pointer is followed. -/
def Smp.rotated (taskindp : Bool) (tskpri : ℤ) (s : Smp) : Option Smp :=
  if tskpri = TPRI_RUN then
    if inIndp taskindp (s.ctxtsk prid) then
      (SmpTKernel.rotateReadyQueueRun numProc s.core).map fun c => { s with core := c }
    else s.rotateReadyQueueCtx numProc NUM_TSKID prid
  else some (s.rotateReadyQueue numProc (tskpri - 1).toNat)

/-- Rotate ready queue. The processor `prid` is in a task-independent part or in a task. -/
def Smp.tkRotRdq (taskindp : Bool) (tskpri : ℤ) (di : Bool) (s : Smp) : Option (ER × Smp) :=
  if tskpri ≠ TPRI_RUN ∧ chkPri tskpri = false then some (E_PAR, s)
  else ((s.rotated numProc NUM_TSKID prid taskindp tskpri).bind
    (endCriticalSection numProc NUM_TSKID prid (di || taskindp))).map fun s => (E_OK, s)

/-! ## What is asked -/

/-- The tasks that a new selection puts at the end of their queues once `t` has been moved: they
lose their processors, and their time slices are over. The counter of `t` is zero then. -/
def slicesEnded (Q : QHead → List Tsk) (s : Smp) (t : Tsk) : List Tsk :=
  sliceEnded s.toSlices s.toCpus s.schedtsk (clearSlicecnt s.core t)
    (selection numProc s.core s.toCpus (ordered (rdyQ (lastIn Q t)))).1 numProc

variable {numProc NUM_TSKID prid} {Q Q₁ : QHead → List Tsk} {s : Smp} {c c' : Core} {t : Tsk}
  {p : ℕ} {taskindp di : Bool} {tskpri : ℤ} {ctxtsk : Option Tsk}

/-! ## The end of the critical section -/

theorem SmpInv.reschedule_order (inv : SmpInv numProc NUM_TSKID Q s) (hn : numProc ≤ MAX_PROC) :
    ∃ req st', SmpTKernel.reschedule numProc s.toSlices s.toCpus (fuel NUM_TSKID) s.toSchedule =
      some (req, st') ∧
      ReadyInv numProc IsRdy (allLastIn Q (sliceEnded s.toSlices s.toCpus s.schedtsk s.core
        (selection numProc s.core s.toCpus (ordered (rdyQ Q))).1 numProc)) st'.core ∧
      st'.core.ready_queue.chg = false := by
  obtain ⟨toptsk, htop, hgreedy⟩ := inv.selects hn
  refine inv.ready.reschedule inv.sched_inj
    (fun i hi t hit => ⟨_, (inv.queued t _).mpr ⟨(inv.sched i hi t hit).1, rfl⟩⟩) htop fun t => ?_
  rw [inv.ready.selection_eq hn (fun _ => inv.maskOk) fun t _ => inv.ctxOk t]
  exact hgreedy.placed t

theorem endCriticalSection_core {s' : Smp} (h : s.updateSchedtsk numProc NUM_TSKID = some s') :
    ∃ s'', s.endCriticalSection numProc NUM_TSKID prid di = some s'' ∧ s''.core = s'.core := by
  unfold Smp.endCriticalSection
  rw [h]
  refine ⟨_, rfl, ?_⟩
  dsimp only
  split_ifs
  · exact congrArg Schedule.core (intoDsp_frame s' prid).1
  · rfl

variable (numProc NUM_TSKID prid di) in
theorem endCriticalSection_rest (hchg : s.core.ready_queue.chg = false) :
    ∃ s'', s.endCriticalSection numProc NUM_TSKID prid di = some s'' ∧ s''.core = s.core := by
  refine endCriticalSection_core ?_
  unfold Smp.updateSchedtsk SmpTKernel.updateSchedtsk
  rw [if_neg (by simp [hchg])]
  rfl

variable (prid di) in
theorem endCriticalSection_pending {req : Bool} {st' : Schedule}
    (hchg : s.core.ready_queue.chg = true)
    (h : reschedule numProc s.toSlices s.toCpus (fuel NUM_TSKID) s.toSchedule = some (req, st')) :
    ∃ s'', s.endCriticalSection numProc NUM_TSKID prid di = some s'' ∧ s''.core = st'.core := by
  have hcall : s.updateSchedtsk numProc NUM_TSKID = some { s with toSchedule := st' } := by
    unfold Smp.updateSchedtsk SmpTKernel.updateSchedtsk
    rw [if_pos hchg, h]
    rfl
  exact endCriticalSection_core hcall

/-! ## The call -/

theorem sliceEnded_congr {sl : Slices} {u : Cpus} {schedtsk : ℕ → Option Tsk} {c c' : Core}
    {chosen : List Tsk} {n : ℕ} (h : c'.tcb = c.tcb) :
    sliceEnded sl u schedtsk c' chosen n = sliceEnded sl u schedtsk c chosen n := by
  unfold sliceEnded sliceOver
  rw [h]

theorem moveLast_tcb (c : Core) (t : Tsk) :
    (readyQueueMoveLast numProc c t).2.tcb = (clearSlicecnt c t).tcb := by
  unfold readyQueueMoveLast
  dsimp only
  split_ifs <;> rfl

theorem moveLast_chg (c : Core) (t : Tsk) :
    (readyQueueMoveLast numProc c t).2.ready_queue.chg = c.ready_queue.chg := by
  unfold readyQueueMoveLast
  dsimp only
  split_ifs <;> rfl

theorem SmpInv.lastIn (inv : SmpInv numProc NUM_TSKID Q s) (ht : t ∈ Q (.rdy p)) :
    SmpInv numProc NUM_TSKID (lastIn Q t) (s.withCore (readyQueueMoveLast numProc s.core t).2) :=
  inv.core (inv.ready.lastIn ht) (sameTcb_moveLast numProc s.core t) fun _ _ => mem_lastIn

theorem SmpInv.reschedule_moved (inv : SmpInv numProc NUM_TSKID Q s) (hn : numProc ≤ MAX_PROC)
    (ht : t ∈ Q (.rdy p)) {b : Bool} :
    ∃ req st', SmpTKernel.reschedule numProc s.toSlices s.toCpus (fuel NUM_TSKID)
        ⟨{ (readyQueueMoveLast numProc s.core t).2 with ready_queue.chg := b }, s.schedtsk⟩ =
          some (req, st') ∧
      ReadyInv numProc IsRdy (allLastIn (SmpTKernel.lastIn Q t) (slicesEnded numProc Q s t))
      st'.core ∧
      st'.core.ready_queue.chg = false := by
  have h := inv.lastIn ht
  have h' : SmpInv numProc NUM_TSKID (SmpTKernel.lastIn Q t)
      (s.withCore { (readyQueueMoveLast numProc s.core t).2 with ready_queue.chg := b }) :=
    h.core (readyInv_chg h.ready b) (.of_eq rfl) fun _ _ => Iff.rfl
  obtain ⟨req, st', hcall, hready, hchg⟩ := h'.reschedule_order hn
  refine ⟨req, st', hcall, ?_, hchg⟩
  have hsame : SameMasks numProc s.core (readyQueueMoveLast numProc s.core t).2 :=
    sameMasks_moveLast s.core t
  have hsel := selection_congr (u := s.toCpus) hsame (ordered (rdyQ (SmpTKernel.lastIn Q t)))
  have hended : slicesEnded numProc Q s t = sliceEnded s.toSlices s.toCpus s.schedtsk
      { (readyQueueMoveLast numProc s.core t).2 with ready_queue.chg := b }
      (selection numProc { (readyQueueMoveLast numProc s.core t).2 with ready_queue.chg := b }
        s.toCpus
        (ordered (rdyQ (SmpTKernel.lastIn Q t)))).1 numProc := by
    unfold slicesEnded
    rw [← hsel]
    exact (sliceEnded_congr (moveLast_tcb s.core t)).symm
  rw [hended]
  exact hready

/-- What a call that finds its task leaves: nothing is moved, or one task and then those that lose
their processors. -/
structure LeavesOrder (numProc : ℕ) (Q : QHead → List Tsk) (s : Smp) (t : Tsk) (s' : Smp) :
    Prop where
  same : SmpTKernel.lastIn Q t = Q → ReadyInv numProc IsRdy Q s'.core
  moved : SmpTKernel.lastIn Q t ≠ Q →
    ReadyInv numProc IsRdy (allLastIn (SmpTKernel.lastIn Q t) (slicesEnded numProc Q s t)) s'.core

variable (prid di) in
/-- A rotated queue, up to the end of the critical section. -/
theorem SmpInv.rotate_ends (inv : SmpInv numProc NUM_TSKID Q s) (hn : numProc ≤ MAX_PROC)
    (hchg : s.core.ready_queue.chg = false) (hp : p < NUM_PRI) {b : List Tsk}
    (e : Q (.rdy p) = t :: b) :
    ∃ s', (s.rotateReadyQueue numProc p).endCriticalSection numProc NUM_TSKID prid di = some s' ∧
      LeavesOrder numProc Q s t s' := by
  have ht : t ∈ Q (.rdy p) := e ▸ List.mem_cons_self
  have hself := inv.ready.lastIn_eq_self_iff (a := []) e
  unfold Smp.rotateReadyQueue
  rw [inv.ready.rotate_eq hp e]
  by_cases hb : b = []
  · rw [if_pos hb]
    obtain ⟨s', hcall, hcore⟩ := endCriticalSection_rest numProc NUM_TSKID prid di
      (s := { s with core := (readyQueueMoveLast numProc s.core t).2 })
      ((moveLast_chg s.core t).trans hchg)
    refine ⟨s', hcall, fun hs => ?_, fun hs => absurd (hself.mpr hb) hs⟩
    have hready := (inv.lastIn ht).ready
    rw [hs] at hready
    rw [hcore]
    exact hready
  · rw [if_neg hb]
    obtain ⟨req, st', hres, hready, -⟩ := inv.reschedule_moved hn ht (b := true)
    obtain ⟨s', hcall, hcore⟩ := endCriticalSection_pending prid di
      (s := { s with core := { (readyQueueMoveLast numProc s.core t).2 with
        ready_queue.chg := true } }) rfl hres
    refine ⟨s', hcall, fun hs => absurd (hself.mp hs) hb, fun _ => ?_⟩
    rw [hcore]
    exact hready

variable (di) in
/-- The own place of a task, up to the end of the critical section. -/
theorem SmpInv.ctx_ends (inv : SmpInv numProc NUM_TSKID Q s) (hn : numProc ≤ MAX_PROC)
    (hchg : s.core.ready_queue.chg = false) (hctx : s.ctxtsk prid = some t) (ht : t ∈ Q (.rdy p)) :
    ∃ s', (s.rotateReadyQueueCtx numProc NUM_TSKID prid).bind (endCriticalSection numProc NUM_TSKID
      prid di) = some s' ∧
      LeavesOrder numProc Q s t s' := by
  obtain ⟨a, b, e⟩ := List.append_of_mem ht
  have hself := inv.ready.lastIn_eq_self_iff e
  have hflag := inv.ready.moveLast_flag e
  unfold Smp.rotateReadyQueueCtx
  rw [hctx]
  dsimp only
  by_cases hb : b = []
  · rw [if_neg (by rw [hflag]; simp [hb]), Option.bind_some]
    obtain ⟨s', hcall, hcore⟩ := endCriticalSection_rest numProc NUM_TSKID prid di
      (s := { s with core := (readyQueueMoveLast numProc s.core t).2 })
      ((moveLast_chg s.core t).trans hchg)
    refine ⟨s', hcall, fun hs => ?_, fun hs => absurd (hself.mpr hb) hs⟩
    have hready := (inv.lastIn ht).ready
    rw [hs] at hready
    rw [hcore]
    exact hready
  · rw [if_pos (by rw [hflag]; exact decide_eq_true hb)]
    obtain ⟨req, st', hres, hready, hclear⟩ :=
      inv.reschedule_moved hn ht (b := (readyQueueMoveLast numProc s.core t).2.ready_queue.chg)
    have hres' : SmpTKernel.reschedule numProc s.toSlices s.toCpus (fuel NUM_TSKID)
        ({ s with core := (readyQueueMoveLast numProc s.core t).2 } : Smp).toSchedule =
        some (req, st') := hres
    obtain ⟨s', hcall, hcore⟩ := endCriticalSection_rest numProc NUM_TSKID prid di
      (s := { s with toSchedule := st' }) hclear
    rw [hres', Option.map_some, Option.bind_some]
    refine ⟨s', hcall, fun hs => absurd (hself.mp hs) hb, fun _ => ?_⟩
    rw [hcore]
    exact hready

/-- The call returns, with a rotation that is right. -/
structure Rotated (numProc NUM_TSKID prid : ℕ) (Q : QHead → List Tsk) (s : Smp) (taskindp : Bool)
    (tskpri : ℤ) (di : Bool) (c₁ : Core) (Q₁ : QHead → List Tsk) (s' : Smp) : Prop where
  rotates : Rotates numProc Q s.core taskindp (s.ctxtsk prid) tskpri c₁ Q₁
  call : s.tkRotRdq numProc NUM_TSKID prid taskindp tskpri di = some (E_OK, s')
  idle : toMove Q taskindp (s.ctxtsk prid) tskpri = none → Q₁ = Q ∧ ReadyInv numProc IsRdy Q s'.core
  ends : ∀ t, toMove Q taskindp (s.ctxtsk prid) tskpri = some t →
    Q₁ = SmpTKernel.lastIn Q t ∧ LeavesOrder numProc Q s t s'

theorem tkRotRdq_eq {s' : Smp} (haccepted : tskpri = TPRI_RUN ∨ chkPri tskpri = true)
    (hend : (s.rotated numProc NUM_TSKID prid taskindp tskpri).bind
      (endCriticalSection numProc NUM_TSKID prid (di || taskindp)) = some s') :
    s.tkRotRdq numProc NUM_TSKID prid taskindp tskpri di = some (E_OK, s') := by
  have hchk : ¬(tskpri ≠ TPRI_RUN ∧ chkPri tskpri = false) := fun hbad =>
    Bool.false_ne_true (hbad.2.symm.trans (haccepted.resolve_left hbad.1))
  unfold Smp.tkRotRdq
  rw [if_neg hchk, hend]
  rfl

theorem ReadyInv.rotate_lastIn (r : ReadyInv numProc IsRdy Q c) {b : List Tsk}
    (e : Q (.rdy p) = t :: b) :
    Function.update Q (.rdy p) ((Q (.rdy p)).rotate 1) = SmpTKernel.lastIn Q t := by
  rw [r.lastIn_eq (a := []) e, e, List.rotate_cons_succ, List.rotate_zero, List.nil_append]

/-- A queue that is named. -/
theorem SmpInv.returns_named (inv : SmpInv numProc NUM_TSKID Q s) (hn : numProc ≤ MAX_PROC)
    (hchg : s.core.ready_queue.chg = false) (hne : tskpri ≠ TPRI_RUN)
    (hchk : chkPri tskpri = true) :
    ∃ c₁ Q₁ s', Rotated numProc NUM_TSKID prid Q s taskindp tskpri di c₁ Q₁ s' := by
  have hrange : 1 ≤ tskpri ∧ tskpri ≤ NUM_PRI := of_decide_eq_true hchk
  have hlt : (tskpri - 1).toNat < NUM_PRI := by omega
  have hmove : toMove Q taskindp (s.ctxtsk prid) tskpri = (Q (.rdy (tskpri - 1).toNat)).head? :=
    if_neg hne
  have hrotates : Rotates numProc Q s.core taskindp (s.ctxtsk prid) tskpri _ _ :=
    rotates_named inv.ready hne hchk
  have hrot : s.rotated numProc NUM_TSKID prid taskindp tskpri =
      some (s.rotateReadyQueue numProc (tskpri - 1).toNat) :=
    if_neg hne
  cases e : Q (.rdy (tskpri - 1).toNat) with
  | nil =>
    -- an empty queue
    have hsame : readyQueueRotate numProc s.core (tskpri - 1).toNat = s.core :=
      if_pos ((inv.ready.isQueEmpty_iff hlt).mpr e)
    obtain ⟨s', hend, hcore⟩ := endCriticalSection_rest numProc NUM_TSKID prid (di || taskindp) hchg
    refine ⟨_, _, s', hrotates, tkRotRdq_eq (.inr hchk) ?_, fun _ => ⟨?_, ?_⟩, fun t ht => ?_⟩
    · rw [hrot, Option.bind_some]
      unfold Smp.rotateReadyQueue
      rw [hsame]
      exact hend
    · rw [e, List.rotate_nil, ← e, Function.update_eq_self]
    · rw [hcore]
      exact inv.ready
    · rw [hmove, e] at ht
      cases ht
  | cons t b =>
    obtain ⟨s', hend, hends⟩ := inv.rotate_ends prid (di || taskindp) hn hchg hlt e
    refine ⟨_, _, s', hrotates, tkRotRdq_eq (.inr hchk) (by rw [hrot, Option.bind_some, hend]),
      fun hnone => ?_, fun u hu => ?_⟩
    · rw [hmove, e] at hnone
      cases hnone
    · rw [hmove, e] at hu
      obtain rfl := Option.some.inj hu
      exact ⟨inv.ready.rotate_lastIn e, hends⟩

theorem SmpInv.returns_run (inv : SmpInv numProc NUM_TSKID Q s) (hn : numProc ≤ MAX_PROC)
    (hp : prid < numProc) (hchg : s.core.ready_queue.chg = false)
    (hindp : inIndp taskindp (s.ctxtsk prid) = true) (hq : ∃ p, Q (.rdy p) ≠ []) :
    ∃ c₁ Q₁ s', Rotated numProc NUM_TSKID prid Q s taskindp TPRI_RUN di c₁ Q₁ s' := by
  obtain ⟨t, hh⟩ := (head_ordered_iff inv.ready).mpr hq
  obtain ⟨hlt, b, e⟩ := inv.ready.head_ordered hh
  have hrotates := rotates_run inv.ready (Nat.zero_lt_of_lt hp) hindp hh
  obtain ⟨s', hend, hends⟩ := inv.rotate_ends prid (di || taskindp) hn hchg hlt e
  have hrot := hrotates.call
  rw [rotation_run hindp] at hrot
  refine ⟨_, _, s', hrotates, tkRotRdq_eq (.inl rfl) ?_, fun hnone => ?_, fun u hu => ?_⟩
  · unfold Smp.rotated
    rw [if_pos rfl, if_pos hindp, hrot]
    exact hend
  · rw [toMove_run hindp, hh] at hnone
    cases hnone
  · rw [toMove_run hindp, hh] at hu
    obtain rfl := Option.some.inj hu
    exact ⟨inv.ready.rotate_lastIn e, hends⟩

theorem rotated_ctx (hctx : s.ctxtsk prid = some t) :
    s.rotated numProc NUM_TSKID prid false TPRI_RUN = s.rotateReadyQueueCtx numProc NUM_TSKID
      prid := by
  unfold Smp.rotated
  rw [if_pos rfl, hctx]
  rfl

/-- In a task. -/
theorem SmpInv.returns_ctx (inv : SmpInv numProc NUM_TSKID Q s) (hn : numProc ≤ MAX_PROC)
    (hchg : s.core.ready_queue.chg = false) (hctx : s.ctxtsk prid = some t)
    (hq : QueuedOrLast Q s.core t) :
    ∃ c₁ Q₁ s', Rotated numProc NUM_TSKID prid Q s false TPRI_RUN di c₁ Q₁ s' := by
  have hmove : toMove Q false (s.ctxtsk prid) TPRI_RUN = some t := by
    rw [hctx]
    exact toMove_ctx
  have hidle (h : toMove Q false (s.ctxtsk prid) TPRI_RUN = none) : False := by
    rw [hmove] at h
    cases h
  by_cases hmem : ∃ p, t ∈ Q (.rdy p)
  · obtain ⟨p, ht⟩ := hmem
    obtain ⟨a, b, e⟩ := List.append_of_mem ht
    obtain ⟨s', hend, hends⟩ := inv.ctx_ends (di || false) hn hchg hctx ht
    refine ⟨(readyQueueMoveLast numProc s.core t).2, Function.update Q (.rdy p) (a ++ b ++ [t]), s',
      ?_, tkRotRdq_eq (.inl rfl) ?_, fun h => (hidle h).elim, fun u hu => ?_⟩
    · rw [hctx]
      exact rotates_ctx inv.ready e
    · rw [rotated_ctx hctx]
      exact hend
    · obtain rfl := Option.some.inj (hmove.symm.trans hu)
      exact ⟨(inv.ready.lastIn_eq e).symm, hends⟩
  · -- the task is not queued, and nothing is moved
    obtain ⟨hlen, hnext⟩ := hq.resolve_left hmem
    have hout : SmpTKernel.lastIn Q t = Q := by
      funext ⟨p⟩
      exact MoveLast.moveLast_of_not_mem fun ht => hmem ⟨p, ht⟩
    have hrotates := rotates_short inv.ready hlen hnext
    have hflag : (readyQueueMoveLast numProc s.core t).1 = false := by
      unfold readyQueueMoveLast
      rw [if_neg (not_not.mpr hnext)]
    obtain ⟨s', hend, hcore⟩ := endCriticalSection_rest numProc NUM_TSKID prid (di || false)
      (s := { s with core := (readyQueueMoveLast numProc s.core t).2 })
      ((moveLast_chg s.core t).trans hchg)
    refine ⟨(readyQueueMoveLast numProc s.core t).2, Q, s', ?_, tkRotRdq_eq (.inl rfl) ?_, fun h =>
      (hidle h).elim, fun u hu => ?_⟩
    · rw [hctx]
      exact hrotates
    · rw [rotated_ctx hctx]
      unfold Smp.rotateReadyQueueCtx
      rw [hctx]
      dsimp only
      rw [if_neg (by simp [hflag]), Option.bind_some]
      exact hend
    · obtain rfl := Option.some.inj (hmove.symm.trans hu)
      refine ⟨hout.symm, fun _ => ?_, fun hne => absurd hout hne⟩
      rw [hcore]
      exact hrotates.ready

variable (di) in
/-- A call that meets the condition for the rotation returns. -/
theorem SmpInv.returns (inv : SmpInv numProc NUM_TSKID Q s) (hn : numProc ≤ MAX_PROC)
    (hp : prid < numProc) (hchg : s.core.ready_queue.chg = false)
    (haccepted : tskpri = TPRI_RUN ∨ chkPri tskpri = true)
    (h : HasHead Q s.core taskindp (s.ctxtsk prid) tskpri) :
    ∃ c₁ Q₁ s', Rotated numProc NUM_TSKID prid Q s taskindp tskpri di c₁ Q₁ s' := by
  by_cases hrun : tskpri = TPRI_RUN
  · subst hrun
    have hq := h rfl
    by_cases hindp : inIndp taskindp (s.ctxtsk prid) = true
    · rw [if_pos hindp] at hq
      exact inv.returns_run hn hp hchg hindp hq
    · rw [if_neg hindp] at hq
      obtain ⟨htask, hctx⟩ : taskindp = false ∧ s.ctxtsk prid ≠ none := by
        simpa [inIndp, Option.isSome_iff_ne_none] using hindp
      obtain ⟨t, hctx⟩ := Option.ne_none_iff_exists'.mp hctx
      subst htask
      exact inv.returns_ctx hn hchg hctx (hq t hctx)
  · exact inv.returns_named hn hchg hrun (haccepted.resolve_left hrun)

end SmpTKernel
