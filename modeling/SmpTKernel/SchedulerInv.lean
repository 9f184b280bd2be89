import SmpTKernel.ReadyQueueGreedy
import SmpTKernel.Scheduler

/-!
# The tasks, the ready queue and the processors

`SmpInv` is what holds after every call inside a critical section: the ready queue has exactly the
tasks in the READY state, each in the queue of its priority; no task is in execution on two
processors, and each on one of its own; the recorded schedule has ready tasks, each once. `Current`
says that the recorded schedule is the greedy selection, unless the change flag announces a new
selection.
-/

namespace SmpTKernel

open LinkRing Smp

variable {numProc NUM_TSKID : ℕ} {Q Q' : QHead → List Tsk} {c c' : Core} {s s' : Smp} {t : Tsk}
  {calm : Prop}

/-! ## What is kept of the control blocks -/

def Tcb.withSlicecnt (c : Tcb) (n : ℕ) : Tcb := { c with slicecnt := n }

/-- The control blocks but for the time slice counters. -/
def SameTcb (c c' : Core) : Prop := ∀ t, ∃ n, c'.tcb t = (c.tcb t).withSlicecnt n

namespace SameTcb

theorem of_eq (h : c'.tcb = c.tcb) : SameTcb c c' := fun t => ⟨(c.tcb t).slicecnt, congrFun h t⟩

theorem slicecnt (h : ∃ t n, c'.tcb = Function.update c.tcb t ((c.tcb t).withSlicecnt n)) :
    SameTcb c c' := by
  obtain ⟨t, n, h⟩ := h
  intro u
  rw [h]
  by_cases hu : u = t
  · rw [hu, Function.update_self]
    exact ⟨n, rfl⟩
  · rw [Function.update_of_ne hu]
    exact ⟨_, rfl⟩

theorem trans {c'' : Core} (h : SameTcb c c') (h' : SameTcb c' c'') : SameTcb c c'' := by
  intro t
  obtain ⟨n, hn⟩ := h t
  obtain ⟨n', hn'⟩ := h' t
  exact ⟨n', by rw [hn', hn]; rfl⟩

variable (h : SameTcb c c')
include h

theorem priority (t : Tsk) : (c'.tcb t).priority = (c.tcb t).priority := by
  obtain ⟨n, hn⟩ := h t
  rw [hn]
  rfl

theorem klockwait (t : Tsk) : (c'.tcb t).klockwait = (c.tcb t).klockwait := by
  obtain ⟨n, hn⟩ := h t
  rw [hn]
  rfl

theorem askedBits (t : Tsk) : askedBits numProc c' t = askedBits numProc c t := by
  obtain ⟨n, hn⟩ := h t
  unfold SmpTKernel.askedBits
  rw [hn]
  rfl

theorem maskOk (hm : MaskOk numProc c t) : MaskOk numProc c' t := by
  unfold MaskOk at hm ⊢
  rwa [h.askedBits]

end SameTcb

theorem sameTcb_insert (numProc : ℕ) (c : Core) (t : Tsk) :
    SameTcb c (readyQueueInsert numProc c t) :=
  .slicecnt ⟨t, 0, rfl⟩

theorem readyQueueDelete_tcb (hk : (c.tcb t).klockwait = false) :
    (readyQueueDelete numProc c t).tcb = c.tcb := by
  unfold readyQueueDelete
  dsimp only
  rw [if_neg (by simp [hk])]

theorem sameTcb_delete (hk : (c.tcb t).klockwait = false) :
    SameTcb c (readyQueueDelete numProc c t) :=
  .of_eq (readyQueueDelete_tcb hk)

theorem readyQueueDelete_chg (hk : (c.tcb t).klockwait = false) :
    (readyQueueDelete numProc c t).ready_queue.chg = true := by
  unfold readyQueueDelete
  dsimp only
  rw [if_neg (by simp [hk])]

theorem sameTcb_moveLast (numProc : ℕ) (c : Core) (t : Tsk) :
    SameTcb c (readyQueueMoveLast numProc c t).2 := by
  unfold readyQueueMoveLast clearSlicecnt
  dsimp only
  split_ifs <;> exact .slicecnt ⟨t, 0, rfl⟩

theorem sameTcb_rotate (numProc : ℕ) (c : Core) (p : ℕ) :
    SameTcb c (readyQueueRotate numProc c p) := by
  unfold readyQueueRotate clearSlicecnt
  dsimp only
  split_ifs
  · exact .of_eq rfl
  · split
    · exact .slicecnt ⟨_, 0, rfl⟩
    · exact .of_eq rfl
  · split
    · exact .slicecnt ⟨_, 0, rfl⟩
    · exact .of_eq rfl

theorem sameTcb_timeSlice (numProc : ℕ) (sl : Slices) (c : Core) (t : Tsk) :
    SameTcb c (timeSliceSchedule numProc sl c (some t)).2 := by
  unfold timeSliceSchedule
  dsimp only
  split_ifs
  · exact SameTcb.trans (.slicecnt ⟨t, _, rfl⟩) (sameTcb_moveLast numProc _ t)
  · exact .slicecnt ⟨t, _, rfl⟩
  · exact .of_eq rfl

/-! ## The invariant -/

/-- The invariant but for the schedule. -/
structure SmpBase (numProc NUM_TSKID : ℕ) (Q : QHead → List Tsk) (s : Smp) : Prop where
  ready : ReadyInv numProc IsRdy Q s.core
  queued : ∀ t p, t ∈ Q (.rdy p) ↔ s.state t = .ready ∧ (s.core.tcb t).priority = p
  task : ∀ t, s.state t ≠ .nonexist → t < NUM_TSKID ∧ MaskOk numProc s.core t ∧
    (s.core.tcb t).priority < NUM_PRI ∧ s.ipriority t < NUM_PRI ∧ (s.core.tcb t).klockwait = false
  ctx : ∀ i < numProc, ∀ t, s.ctxtsk i = some t →
    hasBit (askedBits numProc s.core t) i ∧ (s.state t = .nonexist → s.stkfree t = true)
  ctx_inj : ∀ i < numProc, ∀ j < numProc, ∀ t, s.ctxtsk i = some t → s.ctxtsk j = some t → i = j
  disabled : ∀ i < numProc, s.dispatch_disabled i ≠ DDS_ENABLE →
    s.dispatch_disabled i = DDS_DISABLE ∧ ∃ t, s.ctxtsk i = some t ∧ s.state t = .ready
  freed : ∀ t, s.stkfree t = true → s.state t = .nonexist

structure SmpInv (numProc NUM_TSKID : ℕ) (Q : QHead → List Tsk) (s : Smp) : Prop extends
    SmpBase numProc NUM_TSKID Q s where
  sched : ∀ i < numProc, ∀ t, s.schedtsk i = some t →
    s.state t = .ready ∧ hasBit (askedBits numProc s.core t) i
  sched_inj : ∀ i < numProc, ∀ j < numProc, ∀ t,
    s.schedtsk i = some t → s.schedtsk j = some t → i = j

/-- Without a pending change of the ready queue the schedule is the greedy selection. -/
def Current (numProc : ℕ) (Q : QHead → List Tsk) (s : Smp) : Prop :=
  s.core.ready_queue.chg = false →
    GreedyAssigned numProc (mayRunOn numProc s.core s.toCpus) (ordered (rdyQ Q)) s.schedtsk

theorem Current.pending (h : s.core.ready_queue.chg = true) : Current numProc Q s := fun hf =>
  absurd (h.symm.trans hf) (by decide)

/-- The invariant, with a current schedule in a calm run. -/
def Smp.Good (numProc NUM_TSKID : ℕ) (calm : Prop) (s : Smp) : Prop :=
  ∃ Q, SmpInv numProc NUM_TSKID Q s ∧ (calm → Current numProc Q s)

namespace SmpBase

variable (inv : SmpBase numProc NUM_TSKID Q s)
include inv

theorem not_mem (ht : s.state t ≠ .ready) : ∀ h, t ∉ Q h := by
  rintro ⟨p⟩ hmem
  exact ht ((inv.queued t p).mp hmem).1

theorem mem_ordered : t ∈ ordered (rdyQ Q) ↔ s.state t = .ready := by
  constructor
  · intro ht
    obtain ⟨p, -, hp⟩ := List.mem_flatMap.mp ht
    exact ((inv.queued t p).mp hp).1
  · intro ht
    have hp : t ∈ Q (.rdy (s.core.tcb t).priority) := (inv.queued t _).mpr ⟨ht, rfl⟩
    exact List.mem_flatMap.mpr ⟨_, List.mem_range.mpr (inv.ready.lt_of_mem hp), hp⟩

theorem length_lt : (ordered (rdyQ Q)).length < fuel NUM_TSKID := by
  have hsub : (ordered (rdyQ Q)).toFinset ⊆ Finset.range NUM_TSKID := by
    intro t ht
    have hready := inv.mem_ordered.mp (List.mem_toFinset.mp ht)
    exact Finset.mem_range.mpr (inv.task t (by rw [hready]; decide)).1
  have hcard := Finset.card_le_card hsub
  rw [List.toFinset_card_of_nodup inv.ready.nodup_ordered, Finset.card_range] at hcard
  exact Nat.lt_succ_of_le hcard

theorem maskOk (ht : t ∈ ordered (rdyQ Q)) : MaskOk numProc s.core t :=
  (inv.task t (by rw [inv.mem_ordered.mp ht]; decide)).2.1

theorem ctxOk (t : Tsk) : CtxOk numProc s.core s.toCpus t := fun i hi hit _ =>
  ⟨(inv.ctx i hi t hit).1, fun j hj hjt => inv.ctx_inj j hj i hi t hjt hit⟩

/-- `ready_queue_top` returns, with the greedy selection. -/
theorem selects (hn : numProc ≤ MAX_PROC) :
    ∃ tcb, Selects numProc s.core s.toCpus (fuel NUM_TSKID) tcb ∧
    GreedyAssigned numProc (mayRunOn numProc s.core s.toCpus) (ordered (rdyQ Q)) tcb := by
  obtain ⟨sel, hs, -, hplaced⟩ :=
    inv.ready.selects hn (fun t => inv.maskOk) (fun t _ => inv.ctxOk t) inv.length_lt
  refine ⟨placed numProc s.core s.toCpus sel, ?_, hplaced⟩
  unfold Selects
  rw [readyQueueTop_eq, hs, Option.map_some]

theorem hasBit_of_mem {i : ℕ} (hi : i ∈ mayRunOn numProc s.core s.toCpus t) :
    hasBit (askedBits numProc s.core t) i := by
  unfold mayRunOn at hi
  split_ifs at hi with hpin
  · obtain ⟨hlt, hit, hd⟩ := mem_pinnedOn.mp hi
    exact (inv.ctx i hlt t hit).1
  · exact (Finset.mem_filter.mp hi).2.1

end SmpBase

/-! ## A new selection -/

/-- The selection is recorded. -/
def Smp.record (s : Smp) (tcb : ℕ → Option Tsk) : Smp :=
  { s with core := { s.core with ready_queue.chg := false }, schedtsk := tcb }

def Smp.withCore (s : Smp) (c : Core) : Smp := { s with core := c }

@[simp] theorem withCore_core (s : Smp) (c : Core) : (s.withCore c).core = c := rfl

theorem readyInv_chg (r : ReadyInv numProc IsRdy Q c) (b : Bool) :
    ReadyInv numProc IsRdy Q { c with ready_queue.chg := b } :=
  ⟨⟨r.rings, r.live_rdy, r.priority, r.klockwait⟩, r.bitmap, r.top⟩

theorem SmpBase.core (inv : SmpBase numProc NUM_TSKID Q s) (ready : ReadyInv numProc IsRdy Q' c)
    (htcb : SameTcb s.core c) (hmem : ∀ p t, t ∈ Q' (.rdy p) ↔ t ∈ Q (.rdy p)) :
    SmpBase numProc NUM_TSKID Q' (s.withCore c) where
  ready := ready
  queued t p := by
    change t ∈ Q' (.rdy p) ↔ s.state t = .ready ∧ (c.tcb t).priority = p
    rw [hmem, inv.queued, htcb.priority]
  task t ht := by
    obtain ⟨hlt, hm, hp, hi, hk⟩ := inv.task t ht
    refine ⟨hlt, htcb.maskOk hm, ?_, hi, ?_⟩
    · exact (htcb.priority t).trans_lt hp
    · exact (htcb.klockwait t).trans hk
  ctx i hi t hit := by
    change hasBit (askedBits numProc c t) i ∧ _
    rw [htcb.askedBits]
    exact inv.ctx i hi t hit
  ctx_inj := inv.ctx_inj
  disabled := inv.disabled
  freed := inv.freed

theorem SmpInv.core (inv : SmpInv numProc NUM_TSKID Q s) (ready : ReadyInv numProc IsRdy Q' c)
    (htcb : SameTcb s.core c) (hmem : ∀ p t, t ∈ Q' (.rdy p) ↔ t ∈ Q (.rdy p)) :
    SmpInv numProc NUM_TSKID Q' (s.withCore c) where
  toSmpBase := inv.toSmpBase.core ready htcb hmem
  sched i hi t hit := by
    change _ ∧ hasBit (askedBits numProc c t) i
    rw [htcb.askedBits]
    exact inv.sched i hi t hit
  sched_inj := inv.sched_inj

theorem mayRunOn_congr {u u' : Cpus} (hasked : askedBits numProc c' t = askedBits numProc c t)
    (hdis : ∀ i < numProc, u'.dispatch_disabled i ≥ DDS_DISABLE ↔
      u.dispatch_disabled i ≥ DDS_DISABLE)
    (hctx : ∀ i < numProc, u.dispatch_disabled i ≥ DDS_DISABLE → (u'.ctxtsk i = some t ↔
      u.ctxtsk i = some t)) :
    mayRunOn numProc c' u' t = mayRunOn numProc c u t := by
  have hpin : pinnedOn numProc u' t = pinnedOn numProc u t := by
    ext i
    rw [mem_pinnedOn, mem_pinnedOn]
    refine and_congr_right fun hi => ?_
    rw [hdis i hi]
    exact and_congr_left (hctx i hi)
  unfold mayRunOn
  rw [hpin, hasked]
  refine if_congr Iff.rfl rfl (Finset.filter_congr fun i hi => and_congr_right fun _ => ?_)
  rw [← not_le, ← not_le]
  exact not_congr (hdis i (Finset.mem_range.mp hi))

/-- Where tasks may be put does not depend on the queues. -/
theorem SameTcb.mayRunOn (htcb : SameTcb c c') (u : Cpus) :
    mayRunOn numProc c' u = mayRunOn numProc c u := by
  funext t
  exact mayRunOn_congr (htcb.askedBits t) (fun _ _ => Iff.rfl) fun _ _ _ => Iff.rfl

theorem SmpBase.scheduled (inv : SmpBase numProc NUM_TSKID Q s)
    (h : GreedyAssigned numProc (mayRunOn numProc s.core s.toCpus) (ordered (rdyQ Q)) s.schedtsk) :
    SmpInv numProc NUM_TSKID Q s where
  toSmpBase := inv
  sched i hi t hit := by
    obtain ⟨ht, hbit, -⟩ := h.sound hi hit
    exact ⟨inv.mem_ordered.mp ht, inv.hasBit_of_mem hbit⟩
  sched_inj i hi j hj t hit hjt := (h.sound hj hjt).2.2 i hi hit

theorem SmpBase.record (inv : SmpBase numProc NUM_TSKID Q s) {tcb : ℕ → Option Tsk}
    (h : GreedyAssigned numProc (mayRunOn numProc s.core s.toCpus) (ordered (rdyQ Q)) tcb) :
    SmpInv numProc NUM_TSKID Q (s.record tcb) ∧ Current numProc Q (s.record tcb) := by
  have hsame : SameTcb s.core { s.core with ready_queue.chg := false } := .of_eq rfl
  have hbase := inv.core (readyInv_chg inv.ready false) hsame fun _ _ => Iff.rfl
  have h' : GreedyAssigned numProc (mayRunOn numProc (s.record tcb).core (s.record tcb).toCpus)
    (ordered (rdyQ Q))
      (s.record tcb).schedtsk := h.congr fun t _ => congrFun (hsame.mayRunOn s.toCpus) t
  have hbase' : SmpBase numProc NUM_TSKID Q (s.record tcb) :=
    ⟨hbase.ready, hbase.queued, hbase.task, hbase.ctx, hbase.ctx_inj, hbase.disabled,
      hbase.freed⟩
  exact ⟨hbase'.scheduled h', fun _ => h'⟩

theorem SmpBase.readyQueueTop (inv : SmpBase numProc NUM_TSKID Q s) (hn : numProc ≤ MAX_PROC) :
    ∃ tcb, s.readyQueueTop numProc NUM_TSKID = some (s.record tcb) ∧
      SmpInv numProc NUM_TSKID Q (s.record tcb) ∧ Current numProc Q (s.record tcb) := by
  obtain ⟨tcb, hsel, h⟩ := inv.selects hn
  refine ⟨tcb, ?_, inv.record h⟩
  unfold Smp.readyQueueTop
  rw [hsel, Option.map_some]
  rfl

theorem SmpInv.scheduleOk (inv : SmpInv numProc NUM_TSKID Q s) :
    ScheduleOk numProc IsRdy Q s.toCpus s.toSchedule :=
  ⟨inv.ready, fun _ => inv.maskOk, fun t _ => inv.ctxOk t, fun i hi t hit =>
    inv.mem_ordered.mpr (inv.sched i hi t hit).1⟩

theorem sameTcb_turns (sl : Slices) (u : Cpus) (toptsk : ℕ → Option Tsk) (l : List ℕ) :
    ∀ st : Schedule, SameTcb st.core (l.foldl (rescheduleTurn numProc sl u toptsk) st).core := by
  induction l with
  | nil => intro st; exact .of_eq rfl
  | cons i l ih =>
    intro st
    refine SameTcb.trans ?_ (ih _)
    unfold rescheduleTurn
    dsimp only
    split_ifs
    · cases st.schedtsk i with
      | none => exact .of_eq rfl
      | some t => exact sameTcb_timeSlice numProc sl st.core t
    · exact .of_eq rfl

theorem sameTcb_reschedule {sl : Slices} {u : Cpus} {n : ℕ} {st st' : Schedule} {req : Bool}
    (h : reschedule numProc sl u n st = some (req, st')) : SameTcb st.core st'.core := by
  obtain ⟨⟨toptsk, c⟩, htop, he⟩ := Option.map_eq_some_iff.mp h
  have hc : SameTcb st.core c := by
    rw [readyQueueTop_eq] at htop
    obtain ⟨sel, -, hsel⟩ := Option.map_eq_some_iff.mp htop
    exact .of_eq (congrArg (fun r : (ℕ → Option Tsk) × Core => r.2.tcb) hsel).symm
  dsimp only at he
  split_ifs at he
  · obtain ⟨-, rfl⟩ := Prod.mk.inj he
    exact SameTcb.trans hc (sameTcb_turns sl u toptsk _ ⟨c, st.schedtsk⟩)
  · obtain ⟨-, rfl⟩ := Prod.mk.inj he
    exact hc

/-- `reschedule` returns, and what it stores is the selection from the queues that it leaves. -/
theorem SmpInv.reschedule (inv : SmpInv numProc NUM_TSKID Q s) (hn : numProc ≤ MAX_PROC) :
    ∃ req st' Q', reschedule numProc s.toSlices s.toCpus (fuel NUM_TSKID) s.toSchedule =
      some (req, st') ∧
      SmpInv numProc NUM_TSKID Q' { s with toSchedule := st' } ∧
        Current numProc Q' { s with toSchedule := st' } ∧
      st'.core.ready_queue.chg = false := by
  obtain ⟨toptsk, htop, -⟩ := inv.selects hn
  obtain ⟨req, st', Q', hcall, hsel, hok, hchg, hstored⟩ :=
    inv.scheduleOk.reschedule hn s.toSlices inv.length_lt htop
  have hsame := sameTcb_reschedule hcall
  have hmem : ∀ p t, t ∈ Q' (.rdy p) ↔ t ∈ Q (.rdy p) := by
    have hqueued {Q : QHead → List Tsk} {c : Core} (r : ReadyInv numProc IsRdy Q c) (p : ℕ)
        (t : Tsk) :
        t ∈ Q (.rdy p) ↔ t ∈ ordered (rdyQ Q) ∧ (c.tcb t).priority = p := by
      constructor
      · exact fun ht => ⟨List.mem_flatMap.mpr ⟨p, List.mem_range.mpr (r.lt_of_mem ht), ht⟩,
          r.priority p t ht⟩
      · rintro ⟨ht, rfl⟩
        obtain ⟨p, -, hp⟩ := List.mem_flatMap.mp ht
        exact (r.priority p t hp).symm ▸ hp
    intro p t
    rw [hqueued hsel.ready, hqueued inv.ready, hsel.perm.mem_iff, hsame.priority]
  have hbase := inv.toSmpBase.core hsel.ready hsame hmem
  have hbase' : SmpBase numProc NUM_TSKID Q' { s with toSchedule := st' } :=
    ⟨hbase.ready, hbase.queued, hbase.task, hbase.ctx, hbase.ctx_inj, hbase.disabled,
      hbase.freed⟩
  obtain ⟨tcb, htcb, hgreedy⟩ := hbase'.selects hn
  obtain rfl : tcb = toptsk :=
    congrArg Prod.fst (Option.some.inj (htcb.symm.trans (hsel.tcb inv.ready inv.length_lt htop)))
  have h := hgreedy.of_eq hstored
  exact ⟨req, st', Q', hcall, hbase'.scheduled h, fun _ => h, hchg⟩

/-- `update_schedtsk` returns, and no change is pending. -/
theorem Smp.Good.updateSchedtsk (h : s.Good numProc NUM_TSKID calm) (hn : numProc ≤ MAX_PROC) :
    ∃ s', s.updateSchedtsk numProc NUM_TSKID = some s' ∧ s'.Good numProc NUM_TSKID calm ∧
      s'.core.ready_queue.chg = false ∧ s'.state = s.state ∧ s'.toCpus = s.toCpus := by
  obtain ⟨Q, inv, hcur⟩ := h
  unfold Smp.updateSchedtsk SmpTKernel.updateSchedtsk
  split_ifs with hchg
  · obtain ⟨req, st', Q', hcall, inv', hcur', hclear⟩ := inv.reschedule hn
    rw [hcall]
    exact ⟨_, rfl, ⟨Q', inv', fun _ => hcur'⟩, hclear, rfl, rfl⟩
  · exact ⟨_, rfl, ⟨Q, inv, hcur⟩, by simpa using hchg, rfl, rfl⟩

/-! ## Tasks that become ready and tasks that leave -/

theorem mem_update_append {p p' : ℕ} {u : Tsk} :
    u ∈ Function.update Q (.rdy p) (Q (.rdy p) ++ [t]) (.rdy p') ↔ u ∈ Q (.rdy p') ∨ p' = p ∧
      u = t := by
  by_cases h : p' = p
  · subst h
    rw [Function.update_self, List.mem_append, List.mem_singleton]
    simp
  · rw [Function.update_of_ne (by simpa using h)]
    simp [h]

theorem ReadyInv.split (r : ReadyInv numProc IsRdy Q c) {p : ℕ} (ht : t ∈ Q (.rdy p)) :
    ∃ a b, Q (.rdy p) = a ++ t :: b ∧
      ∀ u p', u ∈ Function.update Q (.rdy p) (a ++ b) (.rdy p') ↔ u ∈ Q (.rdy p') ∧ u ≠ t := by
  obtain ⟨a, b, e⟩ := List.append_of_mem ht
  refine ⟨a, b, e, fun u p' => ?_⟩
  have hnot := r.rings.not_mem_of_unlink e (.rdy p')
  by_cases h : p' = p
  · subst h
    rw [Function.update_self] at hnot ⊢
    rw [e, List.mem_append, List.mem_append, List.mem_cons]
    constructor
    · intro hu
      refine ⟨hu.imp_right .inr, ?_⟩
      rintro rfl
      exact hnot (List.mem_append.mpr hu)
    · rintro ⟨hu | rfl | hu, hne⟩
      · exact .inl hu
      · exact absurd rfl hne
      · exact .inr hu
  · rw [Function.update_of_ne (by simpa using h)] at hnot ⊢
    refine (and_iff_left_of_imp fun hu => ?_).symm
    rintro rfl
    exact hnot hu

theorem setState_self (s : Smp) (t : Tsk) (st : TaskState) : (s.setState t st).state t = st :=
  Function.update_self ..

theorem setState_of_ne {u : Tsk} (s : Smp) (st : TaskState) (hu : u ≠ t) :
    (s.setState t st).state u = s.state u :=
  Function.update_of_ne hu _ _

theorem SmpBase.freed_setState (inv : SmpBase numProc NUM_TSKID Q s) (hn : s.state t ≠ .nonexist)
    (st : TaskState) {u : Tsk} (hu : s.stkfree u = true) :
    (s.setState t st).state u = .nonexist := by
  have hfreed := inv.freed u hu
  have hut : u ≠ t := fun hut => hn (hut ▸ hfreed)
  rwa [setState_of_ne _ _ hut]

theorem SmpBase.makeReady (inv : SmpBase numProc NUM_TSKID Q s) (ht : s.state t ≠ .ready)
    (hn : s.state t ≠ .nonexist) : ∃ Q', SmpBase numProc NUM_TSKID Q' (s.makeReady numProc t) := by
  obtain ⟨hlt, hm, hp, hi, hk⟩ := inv.task t hn
  have hsame := sameTcb_insert numProc s.core t
  refine ⟨_, inv.ready.insert (inv.not_mem ht) hp hk, fun u p => ?_, fun u hu => ?_,
    fun i hi u hiu => ?_, inv.ctx_inj, fun i hi hd => ?_, fun u hu => ?_⟩
  · change _ ↔ (s.setState t .ready).state u = .ready ∧
      ((readyQueueInsert numProc s.core t).tcb u).priority = p
    rw [mem_update_append, inv.queued, hsame.priority]
    by_cases hut : u = t
    · subst hut
      rw [setState_self]
      simp [ht, eq_comm]
    · rw [setState_of_ne _ _ hut]
      simp [hut]
  · have hu' : s.state u ≠ .nonexist := by
      by_cases hut : u = t
      · rwa [hut]
      · rwa [← setState_of_ne s .ready hut]
    obtain ⟨hlt, hm, hp, hi, hk⟩ := inv.task u hu'
    exact ⟨hlt, hsame.maskOk hm, (hsame.priority u).trans_lt hp, hi, (hsame.klockwait u).trans hk⟩
  · obtain ⟨hbit, hfree⟩ := inv.ctx i hi u hiu
    refine ⟨(hsame.askedBits u).symm ▸ hbit, fun hu => hfree ?_⟩
    change (s.setState t .ready).state u = .nonexist at hu
    by_cases hut : u = t
    · rw [hut, setState_self] at hu
      cases hu
    · rwa [setState_of_ne _ _ hut] at hu
  · obtain ⟨he, u, hiu, hu⟩ := inv.disabled i hi hd
    refine ⟨he, u, hiu, ?_⟩
    change (s.setState t .ready).state u = .ready
    by_cases hut : u = t
    · rw [hut, setState_self]
    · rwa [setState_of_ne _ _ hut]
  · exact inv.freed_setState hn .ready hu

theorem Smp.Good.makeReady (h : s.Good numProc NUM_TSKID calm) (ht : s.state t ≠ .ready)
    (hn : s.state t ≠ .nonexist) : (s.makeReady numProc t).Good numProc NUM_TSKID calm := by
  obtain ⟨Q, inv, -⟩ := h
  obtain ⟨Q', hbase⟩ := inv.toSmpBase.makeReady ht hn
  refine ⟨Q', ⟨hbase, fun i hi u hiu => ?_, inv.sched_inj⟩, fun _ => .pending rfl⟩
  obtain ⟨hu, hbit⟩ := inv.sched i hi u hiu
  have hut : u ≠ t := fun hut => ht (hut ▸ hu)
  refine ⟨?_, ((sameTcb_insert numProc s.core t).askedBits u).symm ▸ hbit⟩
  change (s.setState t .ready).state u = .ready
  rwa [setState_of_ne _ _ hut]

/-- The invariant after a ready task has left the queue, for another state. -/
theorem SmpBase.leave (inv : SmpBase numProc NUM_TSKID Q s) (ht : s.state t = .ready)
    {st : TaskState} (hst : st ≠ .ready) (hst' : st ≠ .nonexist)
    (hen : ∀ i < numProc, s.ctxtsk i = some t → s.dispatch_disabled i = DDS_ENABLE) :
    ∃ Q', SmpBase numProc NUM_TSKID Q' ((s.withCore (readyQueueDelete numProc s.core t)).setState
      t st) := by
  have hmem : t ∈ Q (.rdy (s.core.tcb t).priority) := (inv.queued t _).mpr ⟨ht, rfl⟩
  have hsame : SameTcb s.core (readyQueueDelete numProc s.core t) :=
    sameTcb_delete (inv.ready.klockwait _ t hmem)
  obtain ⟨a, b, e, hmem'⟩ := inv.ready.split hmem
  refine ⟨_, inv.ready.delete e, fun u p => ?_, fun u hu => ?_, fun i hi u hiu => ?_, inv.ctx_inj,
    fun i hi hd => ?_, fun u hu => inv.freed_setState (by rw [ht]; decide) st hu⟩
  · change _ ↔ (s.setState t st).state u = .ready ∧
      ((readyQueueDelete numProc s.core t).tcb u).priority = p
    rw [hmem', inv.queued, hsame.priority]
    by_cases hut : u = t
    · subst hut
      rw [setState_self]
      simp [hst]
    · rw [setState_of_ne _ _ hut]
      simp [hut]
  · have hu' : s.state u ≠ .nonexist := by
      by_cases hut : u = t
      · rw [hut, ht]
        decide
      · rwa [← setState_of_ne s st hut]
    obtain ⟨hlt, hm, hp, hi, hk⟩ := inv.task u hu'
    exact ⟨hlt, hsame.maskOk hm, (hsame.priority u).trans_lt hp, hi, (hsame.klockwait u).trans hk⟩
  · obtain ⟨hbit, hfree⟩ := inv.ctx i hi u hiu
    refine ⟨(hsame.askedBits u).symm ▸ hbit, fun hu => hfree ?_⟩
    change (s.setState t st).state u = .nonexist at hu
    by_cases hut : u = t
    · rw [hut, setState_self] at hu
      exact absurd hu hst'
    · rwa [setState_of_ne _ _ hut] at hu
  · obtain ⟨he, u, hiu, hu⟩ := inv.disabled i hi hd
    refine ⟨he, u, hiu, ?_⟩
    change (s.setState t st).state u = .ready
    have hut : u ≠ t := fun hut => hd (hen i hi (hut ▸ hiu))
    rwa [setState_of_ne _ _ hut]

/-- A ready task leaves, and the schedule is current or a change is pending. -/
theorem SmpInv.leave (inv : SmpInv numProc NUM_TSKID Q s) (hn : numProc ≤ MAX_PROC)
    (ht : s.state t = .ready) (st : TaskState) (hst : st ≠ .ready) (hst' : st ≠ .nonexist)
    (hen : ∀ i < numProc, s.ctxtsk i = some t → s.dispatch_disabled i = DDS_ENABLE) :
    ∃ s', (s.makeNonReady numProc NUM_TSKID t).map (fun s => s.setState t st) = some s' ∧
      s'.Good numProc NUM_TSKID True ∧ s'.toCpus = s.toCpus ∧
        s'.state = (s.setState t st).state := by
  obtain ⟨Q', hbase⟩ := inv.toSmpBase.leave ht hst hst' hen
  unfold Smp.makeNonReady
  dsimp only
  split_ifs with hsched
  · obtain ⟨tcb, hsel, hgreedy⟩ := hbase.selects hn
    obtain ⟨inv', hcur⟩ := hbase.record hgreedy
    refine ⟨((s.withCore (readyQueueDelete numProc s.core t)).setState t st).record tcb, ?_,
      ⟨Q', inv', fun _ => hcur⟩, rfl, rfl⟩
    have hsel' : SmpTKernel.readyQueueTop numProc (readyQueueDelete numProc s.core t) s.toCpus
      (fuel NUM_TSKID) =
      some (tcb, _) := hsel
    unfold Smp.readyQueueTop
    rw [hsel']
    rfl
  · have hmem : t ∈ Q (.rdy (s.core.tcb t).priority) := (inv.queued t _).mpr ⟨ht, rfl⟩
    refine ⟨_, rfl, ⟨Q', ⟨hbase, fun i hi u hiu => ?_, inv.sched_inj⟩, fun _ => ?_⟩, rfl, rfl⟩
    · obtain ⟨hu, hbit⟩ := inv.sched i hi u hiu
      have hut : u ≠ t := fun hut => hsched (List.any_eq_true.mpr
        ⟨i, List.mem_range.mpr hi, decide_eq_true (hut ▸ hiu)⟩)
      have hsame : SameTcb s.core (readyQueueDelete numProc s.core t) :=
        sameTcb_delete (inv.ready.klockwait _ t hmem)
      refine ⟨?_, (hsame.askedBits u).symm ▸ hbit⟩
      change (s.setState t st).state u = .ready
      rwa [setState_of_ne _ _ hut]
    · exact .pending (readyQueueDelete_chg (inv.ready.klockwait _ t hmem))

/-! ## Tasks that are not ready -/

/-- Only the task `t`, its control block and its marks differ. -/
structure Alters (t : Tsk) (s s' : Smp) : Prop where
  que : s'.core.que = s.core.que
  ready_queue : s'.core.ready_queue = s.core.ready_queue
  tcb : ∀ u ≠ t, s'.core.tcb u = s.core.tcb u
  schedtsk : s'.schedtsk = s.schedtsk
  cpus : s'.toCpus = s.toCpus
  state : ∀ u ≠ t, s'.state u = s.state u
  ipriority : ∀ u ≠ t, s'.ipriority u = s.ipriority u
  stkfree : ∀ u ≠ t, s'.stkfree u = s.stkfree u

/-- What the invariant asks of a task that is there. -/
def Smp.TaskOk (numProc NUM_TSKID : ℕ) (s : Smp) (t : Tsk) : Prop :=
  t < NUM_TSKID ∧ MaskOk numProc s.core t ∧ (s.core.tcb t).priority < NUM_PRI ∧
    s.ipriority t < NUM_PRI ∧ (s.core.tcb t).klockwait = false

theorem Alters.askedBits {u : Tsk} (ha : Alters t s s') (hu : u ≠ t) :
    askedBits numProc s'.core u = askedBits numProc s.core u := by
  unfold SmpTKernel.askedBits
  rw [ha.tcb u hu]

theorem SmpInv.alters (inv : SmpInv numProc NUM_TSKID Q s) (ha : Alters t s s')
    (ht : s.state t ≠ .ready) (ht' : s'.state t ≠ .ready)
    (task : s'.state t ≠ .nonexist → s'.TaskOk numProc NUM_TSKID t)
    (mask : ∀ i < numProc, s.ctxtsk i = some t →
      askedBits numProc s'.core t = askedBits numProc s.core t ∧
      (s'.state t = .nonexist → s'.stkfree t = true))
    (freed : s'.stkfree t = true → s'.state t = .nonexist) :
    SmpInv numProc NUM_TSKID Q s' := by
  have hne {u : Tsk} {p : ℕ} (hu : u ∈ Q (.rdy p)) : u ≠ t := fun hut =>
    ht (hut ▸ ((inv.queued u p).mp hu).1)
  have hctx : s'.ctxtsk = s.ctxtsk := congrArg Cpus.ctxtsk ha.cpus
  have hdis : s'.dispatch_disabled = s.dispatch_disabled := congrArg Cpus.dispatch_disabled ha.cpus
  have hready : ReadyInv numProc IsRdy Q s'.core := by
    refine ⟨⟨ha.que ▸ inv.ready.rings, inv.ready.live_rdy, fun p u hu => ?_, fun p u hu => ?_⟩, ?_,
      ?_⟩
    · rw [ha.tcb u (hne hu)]
      exact inv.ready.priority p u hu
    · rw [ha.tcb u (hne hu)]
      exact inv.ready.klockwait p u hu
    · rw [ha.ready_queue]
      exact inv.ready.bitmap
    · rw [ha.ready_queue]
      exact inv.ready.top
  refine ⟨⟨hready, fun u p => ?_, fun u hu => ?_, fun i hi u hiu => ?_, hctx ▸ inv.ctx_inj,
    fun i hi hd => ?_, fun u hu => ?_⟩, fun i hi u hiu => ?_, ha.schedtsk ▸ inv.sched_inj⟩
  · by_cases hut : u = t
    · subst hut
      exact iff_of_false (fun hu => hne hu rfl) fun hu => ht' hu.1
    · rw [inv.queued, ha.state u hut, ha.tcb u hut]
  · by_cases hut : u = t
    · subst hut
      exact task hu
    · have h := inv.task u (by rwa [← ha.state u hut])
      unfold MaskOk at h ⊢
      rwa [ha.askedBits hut, ha.tcb u hut, ha.ipriority u hut]
  · rw [hctx] at hiu
    obtain ⟨hbit, hfree⟩ := inv.ctx i hi u hiu
    by_cases hut : u = t
    · subst hut
      obtain ⟨hasked, hfree'⟩ := mask i hi hiu
      exact ⟨hasked.symm ▸ hbit, hfree'⟩
    · rw [ha.askedBits hut, ha.state u hut, ha.stkfree u hut]
      exact ⟨hbit, hfree⟩
  · rw [hdis] at hd ⊢
    obtain ⟨he, u, hiu, hu⟩ := inv.disabled i hi hd
    have hut : u ≠ t := fun hut => ht (hut ▸ hu)
    exact ⟨he, u, by rw [hctx, hiu], by rw [ha.state u hut, hu]⟩
  · by_cases hut : u = t
    · subst hut
      exact freed hu
    · rw [ha.stkfree u hut] at hu
      rw [ha.state u hut]
      exact inv.freed u hu
  · rw [ha.schedtsk] at hiu
    obtain ⟨hu, hbit⟩ := inv.sched i hi u hiu
    have hut : u ≠ t := fun hut => ht (hut ▸ hu)
    rw [ha.state u hut, ha.askedBits hut]
    exact ⟨hu, hbit⟩

theorem Smp.Good.alters (h : s.Good numProc NUM_TSKID calm) (ha : Alters t s s')
    (ht : s.state t ≠ .ready) (ht' : s'.state t ≠ .ready)
    (task : s'.state t ≠ .nonexist → s'.TaskOk numProc NUM_TSKID t)
    (mask : ∀ i < numProc, s.ctxtsk i = some t →
      askedBits numProc s'.core t = askedBits numProc s.core t ∧
      (s'.state t = .nonexist → s'.stkfree t = true))
    (freed : s'.stkfree t = true → s'.state t = .nonexist) :
    s'.Good numProc NUM_TSKID calm := by
  obtain ⟨Q, inv, hcur⟩ := h
  refine ⟨Q, inv.alters ha ht ht' task mask freed, fun hcalm hchg => ?_⟩
  rw [ha.schedtsk]
  rw [ha.ready_queue] at hchg
  refine (hcur hcalm hchg).congr fun u hu => ?_
  have hut : u ≠ t := fun hut => ht (hut ▸ inv.mem_ordered.mp hu)
  refine mayRunOn_congr (ha.askedBits hut) (fun i _ => ?_) fun i _ _ => ?_
  · rw [ha.cpus]
  · rw [ha.cpus]

theorem Smp.Good.taskOk (h : s.Good numProc NUM_TSKID calm) (ht : s.state t ≠ .nonexist) :
    s.TaskOk numProc NUM_TSKID t := by
  obtain ⟨Q, inv, -⟩ := h
  exact inv.task t ht

theorem Smp.Good.freed (h : s.Good numProc NUM_TSKID calm) (hfree : s.stkfree t = true) :
    s.state t = .nonexist := by
  obtain ⟨Q, inv, -⟩ := h
  exact inv.freed t hfree

/-- The state changes, and the task is not ready before or after. -/
theorem Smp.Good.setState (h : s.Good numProc NUM_TSKID calm) (ht : s.state t ≠ .ready)
    (hn : s.state t ≠ .nonexist) {st : TaskState} (hst : st ≠ .ready) (hst' : st ≠ .nonexist) :
    (s.setState t st).Good numProc NUM_TSKID calm := by
  refine h.alters ⟨rfl, rfl, fun _ _ => rfl, rfl, rfl, fun u hu => setState_of_ne s st hu,
    fun _ _ => rfl, fun _ _ => rfl⟩ ht ?_ (fun _ => h.taskOk hn) (fun i hi hit =>
      ⟨rfl, fun hf => ?_⟩) fun hf =>
      absurd (h.freed hf) hn
  · rwa [setState_self]
  · rw [setState_self] at hf
    exact absurd hf hst'

theorem setTcb_of_ne {u : Tsk} (s : Smp) (f : Tcb → Tcb) (hu : u ≠ t) :
    (s.setTcb t f).core.tcb u = s.core.tcb u :=
  Function.update_of_ne hu _ _

theorem setTcb_self (s : Smp) (t : Tsk) (f : Tcb → Tcb) :
    (s.setTcb t f).core.tcb t = f (s.core.tcb t) :=
  Function.update_self ..

theorem Smp.Good.makeDormant (h : s.Good numProc NUM_TSKID calm) (ht : s.state t ≠ .ready)
    (hn : s.state t ≠ .nonexist) : (s.makeDormant t).Good numProc NUM_TSKID calm := by
  obtain ⟨hlt, hm, hp, hi, hk⟩ := h.taskOk hn
  have htcb : (s.makeDormant t).core.tcb t =
      { s.core.tcb t with priority := s.ipriority t, klockwait := false, klocked := false } :=
        Function.update_self ..
  have hasked : askedBits numProc (s.makeDormant t).core t = askedBits numProc s.core t := by
    unfold SmpTKernel.askedBits
    rw [htcb]
  have hstate : (s.makeDormant t).state t = .dormant := Function.update_self ..
  refine h.alters ⟨rfl, rfl, fun u hu => ?_, rfl, rfl, fun u hu => ?_, fun _ _ =>
    rfl, fun u hu => ?_⟩ ht ?_ (fun _ => ?_)
    (fun i hi hit => ⟨hasked, fun hf => ?_⟩) fun hf => ?_
  · exact Function.update_of_ne hu _ _
  · exact Function.update_of_ne hu _ _
  · exact Function.update_of_ne hu _ _
  · rw [hstate]
    decide
  · refine ⟨hlt, ?_, ?_, hi, ?_⟩
    · unfold MaskOk at hm ⊢
      rwa [hasked]
    · rwa [htcb]
    · rw [htcb]
  · rw [hstate] at hf
    cases hf
  · have hfree : (s.makeDormant t).stkfree t = false := Function.update_self ..
    rw [hfree] at hf
    cases hf

end SmpTKernel
