import SmpTKernel.SchedulerInv

/-!
# The calls inside a critical section

Every call returns, keeps the invariant, and leaves the schedule current or a change pending. None
of them changes which tasks are in execution, and none disables dispatching.
-/

namespace SmpTKernel

open LinkRing Smp

variable {numProc NUM_TSKID prid p : ℕ} {Q Q' : QHead → List Tsk} {c c' : Core} {s s' : Smp}
  {t : Tsk} {calm : Prop} {own : Option Tsk}

/-- Waiting, perhaps suspended as well. -/
def Smp.waiting (s : Smp) (t : Tsk) : Prop := s.state t = .wait ∨ s.state t = .waitsus

/-- The tasks in execution are the same, dispatching is not disabled, and no other task than `own`
begins to wait. -/
structure Stays (own : Option Tsk) (s s' : Smp) : Prop where
  ctxtsk : s'.ctxtsk = s.ctxtsk
  enabled : ∀ i, s.dispatch_disabled i = DDS_ENABLE → s'.dispatch_disabled i = DDS_ENABLE
  waits : ∀ u, s'.waiting u → s.waiting u ∨ own = some u

namespace Stays

theorem trans {s'' : Smp} (h : Stays own s s') (h' : Stays own s' s'') : Stays own s s'' :=
  ⟨h'.ctxtsk.trans h.ctxtsk, fun i hi => h'.enabled i (h.enabled i hi), fun u hu =>
    (h'.waits u hu).elim (h.waits u) .inr⟩

theorem of_eq (hcpus : s'.toCpus = s.toCpus) (hstate : s'.state = s.state) : Stays own s s' := by
  refine ⟨congrArg Cpus.ctxtsk hcpus, fun i hi => by rw [hcpus]; exact hi, fun u hu => .inl ?_⟩
  unfold Smp.waiting at hu ⊢
  rwa [← hstate]

theorem refl (own : Option Tsk) (s : Smp) : Stays own s s := .of_eq rfl rfl

theorem of_waits (hctx : s'.ctxtsk = s.ctxtsk)
    (hen : ∀ i, s.dispatch_disabled i = DDS_ENABLE → s'.dispatch_disabled i = DDS_ENABLE)
    {st : TaskState} (hstate : s'.state = (s.setState t st).state)
    (hw : st = .wait ∨ st = .waitsus → s.waiting t ∨ own = some t) :
    Stays own s s' := by
  refine ⟨hctx, hen, fun u hu => ?_⟩
  unfold Smp.waiting at hu
  rw [hstate] at hu
  by_cases hut : u = t
  · rw [hut, setState_self] at hu
    exact hut ▸ hw hu
  · rw [setState_of_ne s st hut] at hu
    exact .inl hu

theorem of_setState (st : TaskState) (hcpus : s'.toCpus = s.toCpus)
    (hstate : s'.state = (s.setState t st).state)
    (hw : st = .wait ∨ st = .waitsus → s.waiting t ∨ own = some t) : Stays own s s' :=
  .of_waits (congrArg Cpus.ctxtsk hcpus) (fun i hi => by rw [hcpus]; exact hi) hstate hw

end Stays

theorem isCtxtsk_iff : s.isCtxtsk numProc t = true ↔ ∃ i < numProc, s.ctxtsk i = some t := by
  unfold Smp.isCtxtsk
  simp

theorem getPridFromCtx_eq (inv : SmpBase numProc NUM_TSKID Q s) {i : ℕ} (hi : i < numProc)
    (hit : s.ctxtsk i = some t) :
    s.getPridFromCtx numProc t = i := by
  unfold Smp.getPridFromCtx
  cases hf : (List.range numProc).find? fun i => s.ctxtsk i = some t with
  | none =>
    have := List.find?_eq_none.mp hf i (List.mem_range.mpr hi)
    simp [hit] at this
  | some j =>
    have hj := List.mem_range.mp (List.mem_of_find?_eq_some hf)
    have hjt : s.ctxtsk j = some t := by simpa using List.find?_some hf
    exact inv.ctx_inj j hj i hi t hjt hit

namespace Smp.Good

variable (h : s.Good numProc NUM_TSKID calm)
include h

theorem makeNonWait (ht : s.state t = .wait ∨ s.state t = .waitsus) :
    (s.makeNonWait numProc t).Good numProc NUM_TSKID calm := by
  unfold Smp.makeNonWait
  split_ifs with hw
  · exact h.makeReady (by rw [hw]; decide) (by rw [hw]; decide)
  · have hw := ht.resolve_left hw
    exact h.setState (by rw [hw]; decide) (by rw [hw]; decide) (by decide) (by decide)

theorem leave (hn : numProc ≤ MAX_PROC) (ht : s.state t = .ready) (st : TaskState)
    (hst : st ≠ .ready) (hst' : st ≠ .nonexist)
    (hen : ∀ i < numProc, s.ctxtsk i = some t → s.dispatch_disabled i = DDS_ENABLE) :
    ∃ s', (s.makeNonReady numProc NUM_TSKID t).map (fun s => s.setState t st) = some s' ∧
      s'.Good numProc NUM_TSKID calm ∧ s'.toCpus = s.toCpus ∧
        s'.state = (s.setState t st).state := by
  obtain ⟨Q, inv, -⟩ := h
  obtain ⟨s', hcall, ⟨Q', inv', hcur⟩, hcpus, hstate⟩ := inv.leave hn ht st hst hst' hen
  exact ⟨s', hcall, ⟨Q', inv', fun _ => hcur trivial⟩, hcpus, hstate⟩

theorem makeWait (hn : numProc ≤ MAX_PROC) (hp : prid < numProc)
    (ht : s.ctxtsk prid ≠ none) (hen : s.dispatch_disabled prid = DDS_ENABLE) :
    ∃ s', s.makeWait numProc NUM_TSKID prid = some s' ∧ s'.Good numProc NUM_TSKID calm ∧
      Stays (s.ctxtsk prid) s s' := by
  obtain ⟨t, ht⟩ := Option.ne_none_iff_exists'.mp ht
  unfold Smp.makeWait
  rw [ht]
  dsimp only
  split
  · next hready =>
    obtain ⟨s', hcall, hgood, hcpus, hstate⟩ := h.leave hn hready .wait (by decide) (by decide)
      fun i hi hit => by
        obtain ⟨Q, inv, -⟩ := h
        rwa [inv.ctx_inj i hi prid hp t hit ht]
    exact ⟨s', hcall, hgood, .of_setState _ hcpus hstate fun _ => .inr rfl⟩
  · next hsus =>
    exact ⟨_, rfl, h.setState (by rw [hsus]; decide) (by rw [hsus]; decide) (by decide) (by decide),
      .of_setState _ rfl rfl fun _ => .inr rfl⟩
  · exact ⟨_, rfl, h, .refl _ s⟩

theorem staTsk (own : Option Tsk) :
    (s.tkStaTsk numProc t).Good numProc NUM_TSKID calm ∧ Stays own s (s.tkStaTsk numProc t) := by
  unfold Smp.tkStaTsk
  split_ifs with hd hctx
  · exact ⟨h, .refl own s⟩
  · exact ⟨h, .refl own s⟩
  · have hd := not_not.mp hd
    exact ⟨h.makeReady (by rw [hd]; decide) (by rw [hd]; decide), .of_setState .ready rfl rfl
      (by simp)⟩

theorem rsmTsk (own : Option Tsk) :
    (s.tkRsmTsk numProc t).Good numProc NUM_TSKID calm ∧ Stays own s (s.tkRsmTsk numProc t) := by
  unfold Smp.tkRsmTsk
  split
  · next hsus =>
    exact ⟨h.makeReady (by rw [hsus]; decide) (by rw [hsus]; decide), .of_setState .ready rfl rfl
      (by simp)⟩
  · next hsus =>
    exact ⟨h.setState (by rw [hsus]; decide) (by rw [hsus]; decide) (by decide) (by decide),
      .of_setState _ rfl rfl fun _ => .inl (.inr hsus)⟩
  · exact ⟨h, .refl own s⟩

theorem susTsk (hn : numProc ≤ MAX_PROC) (own : Option Tsk) :
    ∃ s', s.tkSusTsk numProc NUM_TSKID t = some s' ∧ s'.Good numProc NUM_TSKID calm ∧
      Stays own s s' := by
  unfold Smp.tkSusTsk
  split_ifs with hdead hctx
  · exact ⟨_, rfl, h, .refl own s⟩
  · exact ⟨_, rfl, h, .refl own s⟩
  · split
    · next hready =>
      obtain ⟨s', hcall, hgood, hcpus, hstate⟩ := h.leave hn hready .suspend (by decide) (by decide)
        fun i hi hit => by
          -- the task is not in execution where dispatching is disabled
          obtain ⟨Q, inv, -⟩ := h
          by_contra hd
          refine hctx ⟨isCtxtsk_iff.mpr ⟨i, hi, hit⟩, ?_⟩
          rw [getPridFromCtx_eq inv.toSmpBase hi hit]
          exact (inv.disabled i hi hd).1.ge
      exact ⟨s', hcall, hgood, .of_setState _ hcpus hstate (by simp)⟩
    · next hw =>
      exact ⟨_, rfl, h.setState (by rw [hw]; decide) (by rw [hw]; decide) (by decide) (by decide),
        .of_setState _ rfl rfl fun _ => .inl (.inl hw)⟩
    · exact ⟨_, rfl, h, .refl own s⟩

end Smp.Good

/-! ## Termination -/

theorem makeDormant_setState (s : Smp) (t : Tsk) (st : TaskState) :
    (s.setState t st).makeDormant t = s.makeDormant t := by
  unfold Smp.makeDormant Smp.setState
  dsimp only
  rw [Function.update_idem]

/-- A task that is to be made dormant leaves its state first. -/
theorem map_makeDormant {o : Option Smp} (h : o.map (fun s => s.setState t .dormant) = some s') :
    o.map (fun s => s.makeDormant t) = some (s'.makeDormant t) := by
  obtain ⟨u, rfl, rfl⟩ := Option.map_eq_some_iff.mp h
  rw [makeDormant_setState]
  rfl

namespace SmpInv

variable (inv : SmpInv numProc NUM_TSKID Q s)
include inv

theorem enable (i : ℕ) : SmpInv numProc NUM_TSKID Q
    { s with dispatch_disabled := Function.update s.dispatch_disabled i DDS_ENABLE } := by
  refine ⟨⟨inv.ready, inv.queued, inv.task, inv.ctx, inv.ctx_inj, fun j hj hd => ?_, inv.freed⟩,
    inv.sched, inv.sched_inj⟩
  change Function.update s.dispatch_disabled i DDS_ENABLE j ≠ DDS_ENABLE at hd
  change Function.update s.dispatch_disabled i DDS_ENABLE j = DDS_DISABLE ∧ _
  by_cases hji : j = i
  · rw [hji, Function.update_self] at hd
    exact absurd rfl hd
  · rw [Function.update_of_ne hji] at hd ⊢
    exact inv.disabled j hj hd

/-- Where a task that is not ready is in execution, dispatching is enabled. -/
theorem enabled_of_ctx (ht : s.state t ≠ .ready) {i : ℕ} (hi : i < numProc)
    (hit : s.ctxtsk i = some t) :
    s.dispatch_disabled i = DDS_ENABLE := by
  by_contra hd
  obtain ⟨-, u, hiu, hu⟩ := inv.disabled i hi hd
  obtain rfl := Option.some.inj (hit.symm.trans hiu)
  exact ht hu

/-- The end of a task: it leaves the ready queue if it is there. -/
theorem ends (hn : numProc ≤ MAX_PROC) (ht : s.state t ≠ .nonexist)
    (hen : ∀ i < numProc, s.ctxtsk i = some t → s.dispatch_disabled i = DDS_ENABLE)
    (hcur : calm → s.state t ≠ .ready → Current numProc Q s) :
    ∃ s', (s.terTsk numProc NUM_TSKID t).map (fun s => s.setState t .dormant) = some s' ∧
      s'.Good numProc NUM_TSKID calm ∧ s'.toCpus = s.toCpus ∧
        s'.state = (s.setState t .dormant).state := by
  unfold Smp.terTsk
  split_ifs with hready
  · obtain ⟨s', hcall, ⟨Q', inv', hcur'⟩, hcpus, hstate⟩ := inv.leave hn hready .dormant (by decide)
      (by decide) hen
    exact ⟨s', hcall, ⟨Q', inv', fun _ => hcur' trivial⟩, hcpus, hstate⟩
  · have hgood : s.Good numProc NUM_TSKID calm := ⟨Q, inv, fun hcalm => hcur hcalm hready⟩
    exact ⟨_, rfl, hgood.setState hready ht (by decide) (by decide), rfl, rfl⟩

/-- The same, with dispatching enabled before where the task is in execution. -/
theorem enable_ends (hn : numProc ≤ MAX_PROC) (ht : s.state t ≠ .nonexist)
    (hcur : calm → Current numProc Q s) {i : ℕ} (hi : i < numProc) (hit : s.ctxtsk i = some t) :
    ∃ s', (({ s with dispatch_disabled := Function.update s.dispatch_disabled i DDS_ENABLE } :
      Smp).terTsk numProc
        NUM_TSKID t).map (fun s => s.setState t .dormant) = some s' ∧
          s'.Good numProc NUM_TSKID calm ∧
      s'.ctxtsk = s.ctxtsk ∧ s'.dispatch_disabled = Function.update s.dispatch_disabled i
      DDS_ENABLE ∧
      s'.state = (s.setState t .dormant).state := by
  have hen : ∀ j < numProc, s.ctxtsk j = some t → Function.update s.dispatch_disabled i DDS_ENABLE
      j = DDS_ENABLE :=
    fun j hj hjt => by
      rw [inv.ctx_inj j hj i hi t hjt hit]
      exact Function.update_self ..
  have hcur' (hcalm : calm) (hready : s.state t ≠ .ready) : Current numProc Q
      { s with dispatch_disabled := Function.update s.dispatch_disabled i DDS_ENABLE } := by
    have hsame : Function.update s.dispatch_disabled i DDS_ENABLE = s.dispatch_disabled := by
      rw [← inv.enabled_of_ctx hready hi hit, Function.update_eq_self]
    rw [hsame]
    exact hcur hcalm
  obtain ⟨s', hcall, hgood, hcpus, hstate⟩ := (inv.enable i).ends hn ht hen hcur'
  have hctx := congrArg Cpus.ctxtsk hcpus
  have hdis := congrArg Cpus.dispatch_disabled hcpus
  exact ⟨s', hcall, hgood, hctx, hdis, hstate⟩

end SmpInv

theorem Smp.Good.terTsk (h : s.Good numProc NUM_TSKID calm) (hn : numProc ≤ MAX_PROC)
    (own : Option Tsk) :
    ∃ s', s.tkTerTsk numProc NUM_TSKID t = some s' ∧ s'.Good numProc NUM_TSKID calm ∧
      Stays own s s' := by
  have hdormant {s' : Smp} (hgood : s'.Good numProc NUM_TSKID calm)
      (hstate : s'.state = (s.setState t .dormant).state) :
      (s'.makeDormant t).Good numProc NUM_TSKID calm ∧
      (s'.makeDormant t).state = (s.setState t .dormant).state := by
    refine ⟨hgood.makeDormant ?_ ?_, ?_⟩
    · rw [hstate, setState_self]
      decide
    · rw [hstate, setState_self]
      decide
    · change Function.update s'.state t .dormant = Function.update s.state t .dormant
      rw [hstate]
      exact Function.update_idem ..
  obtain ⟨Q, inv, hcur⟩ := h
  unfold Smp.tkTerTsk
  split_ifs with hdead hctx
  · exact ⟨_, rfl, ⟨Q, inv, hcur⟩, .refl own s⟩
  · obtain ⟨hne, -⟩ := not_or.mp hdead
    obtain ⟨i, hi, hit⟩ := isCtxtsk_iff.mp hctx
    rw [getPridFromCtx_eq inv.toSmpBase hi hit]
    obtain ⟨s', hcall, hgood, hctx', hdis, hstate⟩ := inv.enable_ends hn hne hcur hi hit
    obtain ⟨hgood', hstate'⟩ := hdormant hgood hstate
    refine ⟨_, map_makeDormant hcall, hgood', .of_waits hctx' (fun j hj => ?_) hstate' (by simp)⟩
    change s'.dispatch_disabled j = DDS_ENABLE
    rw [hdis, Function.update_apply]
    split_ifs
    · rfl
    · exact hj
  · obtain ⟨hne, -⟩ := not_or.mp hdead
    obtain ⟨s', hcall, hgood, hcpus, hstate⟩ := inv.ends hn hne
      (fun i hi hit => absurd (isCtxtsk_iff.mpr ⟨i, hi, hit⟩) hctx) fun hcalm _ => hcur hcalm
    obtain ⟨hgood', hstate'⟩ := hdormant hgood hstate
    exact ⟨_, map_makeDormant hcall, hgood', .of_setState _ hcpus hstate' (by simp)⟩

/-! ## Priorities -/

/-- The links do not depend on the control blocks of tasks that are not queued. -/
theorem ReadyInv.setTcb (r : ReadyInv numProc IsRdy Q c) (ht : ∀ h, t ∉ Q h) (x : Tcb) :
    ReadyInv numProc IsRdy Q { c with tcb := Function.update c.tcb t x } := by
  have hne {p : ℕ} {u : Tsk} (hu : u ∈ Q (.rdy p)) : u ≠ t := fun hut => ht _ (hut ▸ hu)
  refine ⟨⟨r.rings, r.live_rdy, fun p u hu => ?_, fun p u hu => ?_⟩, r.bitmap, r.top⟩
  · exact (congrArg Tcb.priority (Function.update_of_ne (hne hu) _ _)).trans (r.priority p u hu)
  · exact (congrArg Tcb.klockwait (Function.update_of_ne (hne hu) _ _)).trans (r.klockwait p u hu)

/-- A ready task goes to the end of the queue of its new priority. -/
theorem SmpInv.reprioritize (inv : SmpInv numProc NUM_TSKID Q s) (ht : s.state t = .ready) {q : ℕ}
    (hq : q < NUM_PRI) :
    ∃ Q', SmpInv numProc NUM_TSKID Q' (s.changeTaskPriority numProc t q) := by
  have hmem : t ∈ Q (.rdy (s.core.tcb t).priority) := (inv.queued t _).mpr ⟨ht, rfl⟩
  have hk : (s.core.tcb t).klockwait = false := inv.ready.klockwait _ t hmem
  obtain ⟨a, b, e, hmem'⟩ := inv.ready.split hmem
  have hnot := inv.ready.rings.not_mem_of_unlink e
  have hdel : (readyQueueDelete numProc s.core t).tcb = s.core.tcb := readyQueueDelete_tcb hk
  let c₁ : Core :=
    ((s.withCore (readyQueueDelete numProc s.core t)).setTcb t fun c =>
      { c with priority := q }).core
  have hc₁ : c₁.tcb t = { s.core.tcb t with priority := q } := by
    change Function.update (readyQueueDelete numProc s.core t).tcb t _ t = _
    rw [Function.update_self, withCore_core, hdel]
  have hready : ReadyInv numProc IsRdy _ c₁ := (inv.ready.delete e).setTcb hnot _
  have hpri : (c₁.tcb t).priority = q := by rw [hc₁]
  have hins := hready.insert hnot (hpri.trans_lt hq) (by rw [hc₁]; exact hk)
  have hcall : s.changeTaskPriority numProc t q = s.withCore (readyQueueInsert numProc c₁ t) :=
    if_pos ht
  have hself : (readyQueueInsert numProc c₁ t).tcb t =
      { s.core.tcb t with priority := q, slicecnt := 0 } := by
    change Function.update c₁.tcb t _ t = _
    rw [Function.update_self, hc₁]
  have hother : ∀ u ≠ t, (readyQueueInsert numProc c₁ t).tcb u = s.core.tcb u := fun u hu => by
    change Function.update (Function.update (readyQueueDelete numProc s.core t).tcb t _) t _ u = _
    rw [Function.update_of_ne hu, Function.update_of_ne hu, hdel]
  have hasked : ∀ u, askedBits numProc (readyQueueInsert numProc c₁ t) u =
      askedBits numProc s.core u := fun u => by
    unfold SmpTKernel.askedBits
    by_cases hut : u = t
    · rw [hut, hself]
    · rw [hother u hut]
  rw [hcall]
  refine ⟨_, ⟨hins, fun u p => ?_, fun u hu => ?_, fun i hi u hiu => ?_, inv.ctx_inj, inv.disabled,
    inv.freed⟩, fun i hi u hiu => ?_, inv.sched_inj⟩
  · change _ ↔ s.state u = .ready ∧ ((readyQueueInsert numProc c₁ t).tcb u).priority = p
    rw [hpri, mem_update_append, hmem', inv.queued]
    by_cases hut : u = t
    · subst hut
      rw [hself]
      simp [ht, eq_comm]
    · rw [hother u hut]
      simp [hut]
  · obtain ⟨hlt, hm, hp, hi, hk⟩ := inv.task u hu
    refine ⟨hlt, ?_, ?_, hi, ?_⟩
    · unfold MaskOk at hm ⊢
      rwa [withCore_core, hasked]
    · by_cases hut : u = t
      · rwa [hut, withCore_core, hself]
      · rwa [withCore_core, hother u hut]
    · by_cases hut : u = t
      · rwa [hut, withCore_core, hself, ← hut]
      · rwa [withCore_core, hother u hut]
  · rw [withCore_core, hasked]
    exact inv.ctx i hi u hiu
  · rw [withCore_core, hasked]
    exact inv.sched i hi u hiu

theorem Smp.Good.changeTaskPriority (h : s.Good numProc NUM_TSKID calm)
    (hne : s.state t ≠ .nonexist) {q : ℕ} (hq : q < NUM_PRI) :
    (s.changeTaskPriority numProc t q).Good numProc NUM_TSKID calm := by
  by_cases ht : s.state t = .ready
  · obtain ⟨Q, inv, -⟩ := h
    obtain ⟨Q', inv'⟩ := inv.reprioritize ht hq
    refine ⟨Q', inv', fun _ => .pending ?_⟩
    unfold Smp.changeTaskPriority
    rw [if_pos ht]
    rfl
  · have hcall : s.changeTaskPriority numProc t q = s.setTcb t fun c => { c with priority := q } :=
      if_neg ht
    rw [hcall]
    have hself := setTcb_self s t fun c => { c with priority := q }
    have hasked : askedBits numProc (s.setTcb t fun c => { c with priority := q }).core t =
        askedBits numProc s.core t := by
      unfold SmpTKernel.askedBits
      rw [hself]
    obtain ⟨hlt, hm, hp, hi, hk⟩ := h.taskOk hne
    refine h.alters ⟨rfl, rfl, fun u hu => setTcb_of_ne s _ hu, rfl, rfl, fun _ _ => rfl, fun _ _ =>
      rfl, fun _ _ => rfl⟩
      ht ht (fun _ => ⟨hlt, ?_, ?_, hi, ?_⟩) (fun i _ _ => ⟨hasked, fun hf => absurd hf hne⟩)
      fun hf => h.freed hf
    · unfold MaskOk at hm ⊢
      rwa [hasked]
    · rwa [hself]
    · rwa [hself]

/-! ## Rotations and time slices -/

theorem Current.core (h : Current numProc Q s) (hsame : SameTcb s.core c)
    (hchg : c.ready_queue.chg = s.core.ready_queue.chg) : Current numProc Q (s.withCore c) :=
  fun hf =>
  (h (hchg.symm.trans hf)).congr fun t _ => congrFun (hsame.mayRunOn s.toCpus) t

theorem readyQueueRotate_chg (r : ReadyInv numProc IsRdy Q c) (hp : p < NUM_PRI) :
    (readyQueueRotate numProc c p).ready_queue.chg = if (Q (.rdy p)).length ≤ 1 then
    c.ready_queue.chg else true := by
  have hhead := r.rings.next_head (r.live_of_lt hp)
  have hempty := r.isQueEmpty_iff hp
  unfold readyQueueRotate
  rcases e : Q (.rdy p) with _ | ⟨u, b⟩
  · rw [if_pos (hempty.mpr e), if_pos (by simp)]
  · have hn := r.rings.next_elem (a := []) e
    rw [if_neg fun h => by simpa [e] using hempty.mp h]
    rw [e, queues_head] at hhead
    rw [queues_elem, queues_head] at hn
    have hnext : (c.que (.que (.rdy p))).next = .tsk u := hhead
    rw [hnext, hn]
    cases b with
    | nil =>
      rw [if_neg (by simp), if_pos (by simp)]
      rfl
    | cons v b =>
      have hrem : queRemoveNext (.que (.rdy p)) c.que = (.tsk u, queRemove (.tsk u) c.que) := by
        have hring := r.rings.ring _ (r.live_of_lt hp)
        rw [e] at hring
        exact queRemoveNext_eq hring
      rw [if_pos (by simp), if_neg (by simp), hrem]
      rfl

namespace SmpInv

variable (inv : SmpInv numProc NUM_TSKID Q s)
include inv

/-- A ready task goes to the end of its queue, or is the last one there. -/
theorem moveLast (ht : s.state t = .ready) :
    ∃ Q', SmpInv numProc NUM_TSKID Q' (s.withCore (readyQueueMoveLast numProc s.core t).2) ∧
      ((readyQueueMoveLast numProc s.core t).1 = false → Q' = Q) := by
  have hmem : t ∈ Q (.rdy (s.core.tcb t).priority) := (inv.queued t _).mpr ⟨ht, rfl⟩
  obtain ⟨a, b, e⟩ := List.append_of_mem hmem
  refine ⟨_, inv.core (inv.ready.moveLast e) (sameTcb_moveLast numProc s.core t) fun p u => ?_,
    fun hf => ?_⟩
  · by_cases hp : p = (s.core.tcb t).priority
    · subst hp
      rw [Function.update_self, e]
      simp
      tauto
    · rw [Function.update_of_ne (by simpa using hp)]
  · have hnext := inv.ready.rings.next_elem e
    rw [queues_elem, queues_head] at hnext
    unfold readyQueueMoveLast at hf
    rw [hnext] at hf
    cases b with
    | nil => rw [List.append_nil, ← e, Function.update_eq_self]
    | cons u b =>
      rw [if_pos (by simp)] at hf
      cases hf

theorem timeSlice (sl : Slices) (ht : s.state t = .ready) :
    ∃ Q', SmpInv numProc NUM_TSKID Q' (s.withCore (timeSliceSchedule numProc sl s.core
      (some t)).2) ∧
      ((timeSliceSchedule numProc sl s.core (some t)).1 = false → Q' = Q) := by
  have hcount := inv.core (Reselected.slicecnt (u := s.toCpus) inv.ready t
    (((s.core.tcb t).slicecnt + sl.TIMER_PERIOD) % 2 ^ 32)).ready (.slicecnt ⟨t, _, rfl⟩) fun _ _ =>
      Iff.rfl
  unfold timeSliceSchedule
  dsimp only
  split_ifs with hslice hover
  · exact hcount.moveLast ht
  · exact ⟨Q, hcount, fun _ => rfl⟩
  · exact ⟨Q, inv, fun _ => rfl⟩

/-- Rotation announces a change, or there was nothing to rotate. -/
theorem rotate (hp : p < NUM_PRI) (hcur : calm → Current numProc Q s) :
    (s.rotateReadyQueue numProc p).Good numProc NUM_TSKID calm := by
  refine ⟨_, inv.core (inv.ready.rotate hp) (sameTcb_rotate numProc s.core p) fun q u => ?_,
    fun hcalm => ?_⟩
  · by_cases hq : q = p
    · subst hq
      rw [Function.update_self, List.mem_rotate]
    · rw [Function.update_of_ne (by simpa using hq)]
  · have hchg := readyQueueRotate_chg inv.ready hp
    by_cases hlen : (Q (.rdy p)).length ≤ 1
    · rw [if_pos hlen] at hchg
      have hrot : (Q (.rdy p)).rotate 1 = Q (.rdy p) := by
        rcases hq : Q (.rdy p) with _ | ⟨u, _ | ⟨v, l⟩⟩
        · rfl
        · exact List.rotate_singleton u 1
        · rw [hq] at hlen
          simp at hlen
      rw [hrot, Function.update_eq_self]
      exact (hcur hcalm).core (sameTcb_rotate numProc s.core p) hchg
    · rw [if_neg hlen] at hchg
      exact .pending hchg

end SmpInv

namespace Smp.Good

variable (h : s.Good numProc NUM_TSKID calm)
include h

theorem rotateReadyQueue (hp : p < NUM_PRI) :
    (s.rotateReadyQueue numProc p).Good numProc NUM_TSKID calm := by
  obtain ⟨Q, inv, hcur⟩ := h
  exact inv.rotate hp hcur

theorem rotateReadyQueueRun (own : Option Tsk) (h0 : 0 < numProc)
    (htop : s.core.ready_queue.top 0 ≠ none) :
    ∃ s', (SmpTKernel.rotateReadyQueueRun numProc s.core).map s.withCore = some s' ∧
      s'.Good numProc NUM_TSKID calm ∧ Stays own s s' := by
  obtain ⟨Q, inv, hcur⟩ := h
  obtain ⟨u, hu⟩ := Option.ne_none_iff_exists'.mp htop
  have hhead : (ordered (rdyQ Q)).head? = some u := by
    rw [List.head?_eq_getElem?, ← inv.ready.top 0 h0]
    exact hu
  refine ⟨s.rotateReadyQueue numProc (s.core.tcb u).priority, ?_,
    inv.rotate (inv.ready.head_ordered hhead).1 hcur, .of_eq rfl rfl⟩
  unfold SmpTKernel.rotateReadyQueueRun readyQueueTopPriority
  rw [hu]
  rfl

theorem rotateReadyQueueCtx (hn : numProc ≤ MAX_PROC) (own : Option Tsk)
    (ht : ∃ t ∈ s.ctxtsk prid, s.state t = .ready) :
    ∃ s', s.rotateReadyQueueCtx numProc NUM_TSKID prid = some s' ∧ s'.Good numProc NUM_TSKID calm ∧
      Stays own s s' := by
  obtain ⟨t, hctx, ht⟩ := ht
  obtain ⟨Q, inv, hcur⟩ := h
  obtain ⟨Q', inv', hsame⟩ := inv.moveLast ht
  have hchg : (readyQueueMoveLast numProc s.core t).2.ready_queue.chg = s.core.ready_queue.chg := by
    unfold readyQueueMoveLast
    dsimp only
    split_ifs <;> rfl
  unfold Smp.rotateReadyQueueCtx
  rw [Option.mem_def.mp hctx]
  dsimp only
  split_ifs with hmoved
  · obtain ⟨req, st', Q'', hcall, inv'', hcur'', -⟩ := inv'.reschedule hn
    have hcall : reschedule numProc s.toSlices s.toCpus (fuel NUM_TSKID)
      ({ s with core := (readyQueueMoveLast numProc s.core t).2 } : Smp).toSchedule =
      some (req, st') := hcall
    rw [hcall]
    exact ⟨_, rfl, ⟨Q'', inv'', fun _ => hcur''⟩, .of_eq rfl rfl⟩
  · obtain rfl := hsame (by simpa using hmoved)
    exact ⟨_, rfl, ⟨Q', inv', fun hcalm =>
      (hcur hcalm).core (sameTcb_moveLast numProc s.core t) hchg⟩, .of_eq rfl rfl⟩

end Smp.Good

/-- After some turns of the loop of `timer_handler`. -/
structure SlicesTurned (numProc NUM_TSKID : ℕ) (calm : Prop) (s : Smp) (r : Bool × Smp) : Prop where
  cpus : r.2.toCpus = s.toCpus
  state : r.2.state = s.state
  inv : ∃ Q, SmpInv numProc NUM_TSKID Q r.2 ∧ (r.1 = false → calm → Current numProc Q r.2)

theorem SlicesTurned.turn {r : Bool × Smp} (h : SlicesTurned numProc NUM_TSKID calm s r) (i : ℕ) :
    SlicesTurned numProc NUM_TSKID calm s (timeSliceTurn numProc r i) := by
  unfold timeSliceTurn
  split
  · exact h
  · next t ht =>
    split_ifs with hsched
    · obtain ⟨Q, inv, hcur⟩ := h.inv
      obtain ⟨j, hj, hjt⟩ := List.any_eq_true.mp hsched
      have hready := (inv.sched j (List.mem_range.mp hj) t (of_decide_eq_true hjt)).1
      obtain ⟨Q', inv', hsame⟩ := inv.timeSlice r.2.toSlices hready
      refine ⟨h.cpus, h.state, Q', inv', fun hflag hcalm => ?_⟩
      obtain ⟨hbefore, hmoved⟩ := Bool.or_eq_false_iff.mp hflag
      obtain rfl := hsame hmoved
      exact (hcur hbefore hcalm).core (sameTcb_timeSlice numProc _ _ t)
        (timeSliceSchedule_chg _ _ (some t))
    · exact h

theorem SlicesTurned.turns {r : Bool × Smp} (h : SlicesTurned numProc NUM_TSKID calm s r)
    (l : List ℕ) :
    SlicesTurned numProc NUM_TSKID calm s (l.foldl (timeSliceTurn numProc) r) := by
  induction l generalizing r with
  | nil => exact h
  | cons i l ih => exact ih (h.turn i)

theorem Smp.Good.timerSlices (h : s.Good numProc NUM_TSKID calm) (hn : numProc ≤ MAX_PROC)
    (own : Option Tsk) :
    ∃ s', s.timerSlices numProc NUM_TSKID = some s' ∧ s'.Good numProc NUM_TSKID calm ∧
      Stays own s s' := by
  obtain ⟨Q, inv, hcur⟩ := h
  have hstart : SlicesTurned numProc NUM_TSKID calm s (false, s) :=
    ⟨rfl, rfl, Q, inv, fun _ => hcur⟩
  obtain ⟨hcpus, hstate, Q', inv', hcur'⟩ := hstart.turns (List.range MAX_PROC)
  unfold Smp.timerSlices
  dsimp only
  split_ifs with hflag
  · obtain ⟨tcb, hcall, inv'', hcur''⟩ := inv'.toSmpBase.readyQueueTop hn
    exact ⟨_, hcall, ⟨Q', inv'', fun _ => hcur''⟩, .of_eq hcpus hstate⟩
  · exact ⟨_, rfl, ⟨Q', inv', hcur' (by simpa using hflag)⟩, .of_eq hcpus hstate⟩

/-! ## Sequences of calls -/

theorem SchedCall.exec_good (hn : numProc ≤ MAX_PROC) (hp : prid < numProc)
    (h : s.Good numProc NUM_TSKID calm) (call : SchedCall) (hfit : call.Fits prid s)
    (hown : call = .makeWait → own = s.ctxtsk prid) :
    ∃ s', call.exec numProc NUM_TSKID prid s = some s' ∧ s'.Good numProc NUM_TSKID calm ∧
      Stays own s s' := by
  cases call with
  | makeNonWait t =>
    refine ⟨_, rfl, h.makeNonWait hfit, ?_⟩
    unfold Smp.makeNonWait
    split_ifs
    · exact .of_setState .ready rfl rfl (by simp)
    · exact .of_setState _ rfl rfl (by simp)
  | makeWait => exact hown rfl ▸ h.makeWait hn hp hfit.1 hfit.2
  | changeTaskPriority t q =>
    refine ⟨_, rfl, h.changeTaskPriority hfit.1 hfit.2, ?_⟩
    unfold Smp.changeTaskPriority
    split_ifs <;> exact .of_eq rfl rfl
  | rotateReadyQueue q => exact ⟨_, rfl, h.rotateReadyQueue hfit, .of_eq rfl rfl⟩
  | rotateReadyQueueRun => exact h.rotateReadyQueueRun own (Nat.zero_lt_of_lt hp) hfit
  | rotateReadyQueueCtx => exact h.rotateReadyQueueCtx hn own hfit
  | staTsk t => exact ⟨_, rfl, h.staTsk own⟩
  | terTsk t => exact h.terTsk hn own
  | susTsk t => exact h.susTsk hn own
  | rsmTsk t => exact ⟨_, rfl, h.rsmTsk own⟩
  | timerSlices => exact h.timerSlices hn own

theorem SchedCall.execAll_good (own : Option Tsk) (hn : numProc ≤ MAX_PROC) (hp : prid < numProc)
    (calls : List SchedCall) {s : Smp}
    (h : s.Good numProc NUM_TSKID calm) (hfit : SchedCall.FitAll numProc NUM_TSKID prid calls s)
    (hown : .makeWait ∈ calls → own = s.ctxtsk prid) :
    ∃ s', SchedCall.execAll numProc NUM_TSKID prid calls s = some s' ∧
      s'.Good numProc NUM_TSKID calm ∧
      Stays own s s' := by
  induction calls generalizing s with
  | nil => exact ⟨s, rfl, h, .refl own s⟩
  | cons call calls ih =>
    obtain ⟨s₁, hcall, h₁, hstays₁⟩ := SchedCall.exec_good hn hp h call hfit.1 fun hw =>
      hown (by simp [hw])
    obtain ⟨s₂, hcalls, h₂, hstays₂⟩ := ih h₁ (hfit.2 s₁ hcall) fun hw => by
      rw [hstays₁.ctxtsk]
      exact hown (List.mem_cons_of_mem _ hw)
    refine ⟨s₂, ?_, h₂, hstays₁.trans hstays₂⟩
    rw [SchedCall.execAll, hcall]
    exact hcalls

end SmpTKernel
