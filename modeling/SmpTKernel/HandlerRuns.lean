import SmpTKernel.HandlerCalls

/-!
# Runs of cyclic and alarm handlers

Handlers are created, started, stopped and deleted in any order, from any processor and from
handlers too, while timers tick, handlers run and return and tasks wait. The critical section is
left only when a handler is called, so each operation goes from the end of one section to the end of
the next.
-/

namespace SmpTKernel

open LinkRing Fuel

/-! ## Operations -/

inductive HdrOp
  | creCyc (prid : ℕ) (pk : Tccyc) (rsatrOk : Bool) (prot : ER)
  | delCyc (i : ℕ) (idOk : Bool) (prot : ER)
  | staCyc (i : ℕ) (idOk : Bool) (prot : ER)
  | stpCyc (i : ℕ) (idOk : Bool) (prot : ER)
  | creAlm (pk : Tcalm) (rsatrOk : Bool) (prot : ER)
  | delAlm (i : ℕ) (idOk : Bool) (prot : ER)
  | staAlm (prid i almtim : ℕ) (idOk : Bool) (prot : ER)
  | stpAlm (i : ℕ) (idOk : Bool) (prot : ER)
  /-- The innermost handler that runs on a processor returns. -/
  | resume (prid : ℕ)
  | tick (prid : ℕ)
  | interrupt (prid : ℕ)
  | wait (t : Tsk) (tmout : ℤ) (atr : ℕ)
  | waitReltim (t : Tsk) (tmout atr : ℕ)
  | waitRelease (t : Tsk)
  /-- A task is started, ends, is suspended or resumed. -/
  | setTask (t : Tsk) (tcb : WaitTcb)

section Run

variable (TIMER_PERIOD maxProc numProc : ℕ)

def HdrOp.exec (fuel : ℕ) (w : HdrState) : HdrOp → Option HdrState
  | creCyc prid pk rsatrOk prot =>
    (tkCreCyc TIMER_PERIOD maxProc numProc fuel prid pk rsatrOk prot w).map Prod.fst
  | delCyc i idOk prot => some (tkDelCyc i idOk prot w).1
  | staCyc i idOk prot => (tkStaCyc TIMER_PERIOD fuel i idOk prot w).map Prod.fst
  | stpCyc i idOk prot => some (tkStpCyc i idOk prot w).1
  | creAlm pk rsatrOk prot => some (tkCreAlm numProc pk rsatrOk prot w).1
  | delAlm i idOk prot => some (tkDelAlm i idOk prot w).1
  | staAlm prid i almtim idOk prot =>
    (tkStaAlm TIMER_PERIOD maxProc fuel prid i almtim idOk prot w).map Prod.fst
  | stpAlm i idOk prot => some (tkStpAlm i idOk prot w).1
  | resume prid =>
    match w.2.running prid with
    | [] => some w
    | frame :: rest =>
      handlerReturn fuel prid
        (w.1, { w.2 with running := Function.update w.2.running prid rest }) frame
  | tick prid => hdrTick TIMER_PERIOD maxProc fuel prid w
  | interrupt prid => handlerInterrupt fuel prid w
  | wait t tmout atr => (makeWait TIMER_PERIOD fuel w.1 w.2.tcb t tmout atr).map (waitState w)
  | waitReltim t tmout atr =>
    (makeWaitReltim TIMER_PERIOD fuel w.1 w.2.tcb t tmout atr).map (waitState w)
  | waitRelease t => some (waitState w (SmpTKernel.waitRelease w.1 w.2.tcb t))
  | setTask t tcb => some (w.1, { w.2 with tcb := Function.update w.2.tcb t tcb })

/-- Calls come from processors of the board; a task that waits begins no other wait, and one that
does not wait is not released. -/
def HdrOp.Legal (w : HdrState) : HdrOp → Prop
  | creCyc prid _ _ _ | staAlm prid _ _ _ _ | resume prid | tick prid | interrupt prid =>
    prid < numProc
  | wait t _ _ | waitReltim t _ _ => (w.2.tcb t).state = .ready ∨ (w.2.tcb t).state = .suspend
  | waitRelease t => (w.2.tcb t).Waits
  | setTask t tcb => tcb.Waits ↔ (w.2.tcb t).Waits
  | _ => True

/-- After `timer_initialize`, `cyclichandler_initialize` and `alarmhandler_initialize`. -/
def HdrState.boot (numCycid numAlmid : ℕ) (s : Timer) (h : Hdrs) : HdrState :=
  (handlerQueuesInit maxProc { s with
    current_time := 0
    que := queInit (.que .timerQueue) s.que
    handler_queue := fun _ => ⟨false, false⟩ },
   { h with
    cyccb := fun i => { h.cyccb i with cychdr := 0 }
    free_cyccb := List.range numCycid
    almcb := fun i => { h.almcb i with almhdr := 0 }
    free_almcb := List.range numAlmid
    running := fun _ => []
    request := fun _ => false })

/-- The states at the end of the critical sections. No task waits at first. -/
inductive HdrRun : HdrState → Prop
  | boot (numCycid numAlmid : ℕ) (s : Timer) (h : Hdrs) (htcb : ∀ t, ¬(h.tcb t).Waits) :
      HdrRun (HdrState.boot maxProc numCycid numAlmid s h)
  | step {w w' : HdrState} {op : HdrOp} (run : HdrRun w) (legal : op.Legal numProc w)
      (h : Returns (fun fuel => op.exec TIMER_PERIOD maxProc numProc fuel w) w') : HdrRun w'

end Run

variable {TIMER_PERIOD maxProc numProc : ℕ} {s : Timer} {h : Hdrs} {w w' : HdrState}
  {q : TimerQue → List Tmeb} {op : HdrOp} {e : Tmeb}

/-! ## The first state -/

/-- The first `n` handler queues, and the queues initialized before, are empty rings. -/
structure QueuesInit (n : ℕ) (s s' : Timer) : Prop where
  que : ∀ i < n, s'.que (.que (.hdrque i)) = ⟨.que (.hdrque i), .que (.hdrque i)⟩
  flags : ∀ i < n, s'.handler_queue i = ⟨false, false⟩
  other : ∀ x, (∀ i < n, x ≠ .que (.hdrque i)) → s'.que x = s.que x
  rest : ∀ i, n ≤ i → s'.handler_queue i = s.handler_queue i

theorem handlerQueuesInit_init (n : ℕ) (s : Timer) : QueuesInit n s (handlerQueuesInit n s) := by
  unfold handlerQueuesInit
  induction n with
  | zero =>
    exact ⟨fun i hi => absurd hi (Nat.not_lt_zero i), fun i hi => absurd hi (Nat.not_lt_zero i),
      fun _ _ => rfl, fun _ _ => rfl⟩
  | succ n ih =>
    rw [List.range_succ, List.foldl_append]
    obtain ⟨hque, hflags, hother, hrest⟩ := ih
    refine ⟨fun i hi => ?_, fun i hi => ?_, fun x hx => ?_, fun i hi => ?_⟩
    · by_cases hin : i = n
      · subst hin
        exact single_apply_self _ _
      · refine (single_apply_of_ne (fun hc => hin (TimerQue.hdrque.inj (TimerNode.que.inj hc)))
          _).trans ?_
        exact hque i (by omega)
    · by_cases hin : i = n
      · subst hin
        exact Function.update_self ..
      · exact (Function.update_of_ne hin _ _).trans (hflags i (by omega))
    · refine (single_apply_of_ne (hx n (Nat.lt_succ_self n)) _).trans ?_
      exact hother x fun i hi => hx i (by omega)
    · exact (Function.update_of_ne (show i ≠ n by omega) _ _).trans (hrest i (by omega))

theorem boot_settled (numCycid numAlmid : ℕ) (s : Timer) (h : Hdrs) (htcb : ∀ t, ¬(h.tcb t).Waits) :
    Settled maxProc (HdrState.boot maxProc numCycid numAlmid s h) := by
  set s₀ : Timer := { s with
    current_time := 0
    que := queInit (.que .timerQueue) s.que
    handler_queue := fun _ => ⟨false, false⟩ } with hs₀
  have hinit := handlerQueuesInit_init maxProc s₀
  have hflags (p : ℕ) : (handlerQueuesInit maxProc s₀).handler_queue p = ⟨false, false⟩ := by
    by_cases hp : p < maxProc
    · exact hinit.flags p hp
    · exact hinit.rest p (Nat.not_lt.mp hp)
  refine ⟨fun _ => [], ⟨⟨fun g hg => ?_, fun _ _ => rfl, fun _ _ t ht =>
    absurd ht List.not_mem_nil⟩, fun e => ?_, fun _ e he => absurd he List.not_mem_nil, fun p hp =>
      absurd rfl hp, fun p hp => ?_, ?_⟩, fun p hp => ?_⟩
  · apply isRing_nil.mpr
    cases g with
    | timerQueue =>
      refine (hinit.other _ fun i _ hc => TimerQue.noConfusion (TimerNode.que.inj hc)).trans ?_
      exact single_apply_self (TimerNode.que .timerQueue) s.que
    | hdrque i => exact hinit.que i hg
  · refine iff_of_false (fun ⟨g, hg⟩ => List.not_mem_nil hg) fun hc => ?_
    cases e with
    | wtmeb t => exact htcb t hc.1
    | cyctmeb i => exact hc.1.1 rfl
    | almtmeb i => exact hc.1.1 rfl
  · change ((handlerQueuesInit maxProc s₀).handler_queue p).act = true at hp
    rw [hflags p] at hp
    exact absurd hp Bool.false_ne_true
  · exact ⟨fun i hi => absurd rfl hi, fun i hi => absurd rfl hi, fun _ _ => rfl, fun _ _ =>
      rfl, List.nodup_range, List.nodup_range⟩
  · show ((handlerQueuesInit maxProc s₀).handler_queue p).upd = false
    rw [hflags p]

/-! ## Every operation -/

theorem Settled.settles (hw : Settled maxProc w) : Settles maxProc fun _ => some w :=
  ⟨w, returns_const w, hw⟩

/-- **Every operation ends**, and leaves the critical section with the invariant. -/
theorem Settled.exec (hw : Settled maxProc w) (TIMER_PERIOD : ℕ) (hn : numProc ≤ maxProc)
    (hmax : maxProc ≤ 32) (legal : op.Legal numProc w) :
    Settles maxProc fun fuel => op.exec TIMER_PERIOD maxProc numProc fuel w := by
  obtain ⟨q, inv, hquiet⟩ := hw
  cases op with
  | creCyc prid pk rsatrOk prot =>
    exact inv.tkCreCyc hquiet (lt_of_lt_of_le legal hn) hn hmax TIMER_PERIOD pk rsatrOk prot
  | delCyc i idOk prot => exact (inv.tkDelCyc hquiet i idOk prot).settles
  | staCyc i idOk prot => exact inv.tkStaCyc hquiet TIMER_PERIOD i idOk prot
  | stpCyc i idOk prot => exact (inv.tkStpCyc hquiet i idOk prot).settles
  | creAlm pk rsatrOk prot => exact (inv.tkCreAlm hquiet hn hmax pk rsatrOk prot).settles
  | delAlm i idOk prot => exact (inv.tkDelAlm hquiet i idOk prot).settles
  | staAlm prid i almtim idOk prot =>
    exact inv.tkStaAlm hquiet (lt_of_lt_of_le legal hn) hmax TIMER_PERIOD i almtim idOk prot
  | stpAlm i idOk prot => exact (inv.tkStpAlm hquiet i idOk prot).settles
  | resume prid =>
    dsimp only [HdrOp.exec]
    cases hrun : w.2.running prid with
    | nil => exact settles_same inv hquiet
    | cons frame rest => exact inv.handlerReturn hquiet (lt_of_lt_of_le legal hn) hrun
  | tick prid => exact inv.hdrTick (lt_of_lt_of_le legal hn) hmax TIMER_PERIOD
  | interrupt prid => exact inv.handlerInterrupt hquiet (lt_of_lt_of_le legal hn)
  | wait t tmout atr => exact inv.makeWait hquiet TIMER_PERIOD legal tmout atr
  | waitReltim t tmout atr => exact inv.makeWaitReltim hquiet TIMER_PERIOD legal tmout atr
  | waitRelease t => exact (inv.waitRelease hquiet legal).settles
  | setTask t tcb => exact (inv.setTask hquiet legal).settles

/-- Every reached state is the end of a critical section. -/
theorem HdrRun.settled (hn : numProc ≤ maxProc) (hmax : maxProc ≤ 32)
    (run : HdrRun TIMER_PERIOD maxProc numProc w) :
    Settled maxProc w := by
  induction run with
  | boot numCycid numAlmid s h htcb => exact boot_settled numCycid numAlmid s h htcb
  | step _ legal h ih =>
    obtain ⟨w', hret, hsettled⟩ := ih.exec TIMER_PERIOD hn hmax legal
    rwa [h.unique hret]

/-! ## The protocol of handlers -/

/-- The event is linked exactly once, in one queue. -/
def LinkedOnce (q : TimerQue → List Tmeb) (e : Tmeb) : Prop :=
  ∃ g, (q g).count e = 1 ∧ ∀ g', g' ≠ g → e ∉ q g'

theorem linkedOnce_iff {m : Links TimerNode} (r : EventRings maxProc m q) :
    LinkedOnce q e ↔ ∃ g, e ∈ q g := by
  constructor
  · rintro ⟨g, hcount, -⟩
    exact ⟨g, List.count_pos_iff.mp (by rw [hcount]; exact Nat.one_pos)⟩
  · rintro ⟨g, hg⟩
    exact ⟨g, List.count_eq_one_of_mem (r.nodup g) hg, fun g' hne hg' => hne (r.disj g' g e hg' hg)⟩

/-- What is said about the handlers of a kernel at the end of a critical section. -/
structure HandlersRight (maxProc : ℕ) (w : HdrState) (q : TimerQue → List Tmeb) : Prop where
  rings : EventRings maxProc w.1.que q
  cyc : ∀ i, (w.2.cyccb i).cychdr ≠ 0 →
    ((w.2.cyccb i).cycstat &&& TCYC_STA ≠ 0 ↔ LinkedOnce q (.cyctmeb i))
  alm : ∀ i, (w.2.almcb i).almhdr ≠ 0 →
    ((w.2.almcb i).almstat &&& TALM_STA ≠ 0 ↔ LinkedOnce q (.almtmeb i))
  cycStopped : ∀ i, (w.2.cyccb i).cychdr = 0 ∨ (w.2.cyccb i).cycstat &&& TCYC_STA = 0 →
    ∀ g, .cyctmeb i ∉ q g
  almStopped : ∀ i, (w.2.almcb i).almhdr = 0 ∨ (w.2.almcb i).almstat &&& TALM_STA = 0 →
    ∀ g, .almtmeb i ∉ q g
  act : ∀ p < maxProc, isQueEmpty (.que (.hdrque p)) w.1.que = false →
    (w.1.handler_queue p).act = true
  /-- A processor whose `act` is set is requested to execute handlers, or is about to after one that
  it runs. -/
  told : ∀ p, (w.1.handler_queue p).act = true → w.2.request p = true ∨
    ∃ f ∈ w.2.running p, f.drains = true

theorem HdrInv.handlersRight (inv : HdrInv maxProc (fun _ => False) w q)
    (hquiet : UpdNoted maxProc w.1) :
    HandlersRight maxProc w q := by
  refine ⟨inv.rings, fun i hi => ?_, fun i hi => ?_, fun i hi => ?_, fun i hi => ?_,
    fun p hp hne => ?_, fun p hp => (inv.told p hp).imp id fun ht => ht.resolve_right id⟩
  · rw [linkedOnce_iff inv.rings, inv.on, and_iff_left (show ¬Parked w.1 (.cyctmeb i) from id)]
    exact (cycStarted_iff hi).symm
  · rw [linkedOnce_iff inv.rings, inv.on, and_iff_left (show ¬Parked w.1 (.almtmeb i) from id)]
    exact (almStarted_iff hi).symm
  · exact inv.not_mem fun hc => hi.elim hc.1 hc.2
  · exact inv.not_mem fun hc => hi.elim hc.1 hc.2
  · have hring := inv.rings.ring (.hdrque p) hp
    have hlist : q (.hdrque p) ≠ [] := by
      intro hc
      have hself : (w.1.que (.que (.hdrque p))).next = .que (.hdrque p) := by
        refine hring.next_eq_self_iff.mpr ?_
        rw [hc]
        rfl
      exact of_decide_eq_false hne hself
    refine (inv.act p hlist).resolve_right fun hc => ?_
    rw [hquiet p hp] at hc
    exact Bool.false_ne_true hc

/-- **Handlers.** At the end of every critical section a handler is started exactly while its event
is linked, once, in the timer queue or a handler queue, one that is stopped or deleted is in none,
and a processor with pending handlers is active. Every operation comes to the end of its section. -/
theorem hdrRun_handlers (hn : numProc ≤ maxProc) (hmax : maxProc ≤ 32)
    (run : HdrRun TIMER_PERIOD maxProc numProc w) :
    (∃ q, HandlersRight maxProc w q) ∧ ∀ op : HdrOp, op.Legal numProc w →
      ∃ w', Returns (fun fuel => op.exec TIMER_PERIOD maxProc numProc fuel w) w' := by
  have hsettled := run.settled hn hmax
  refine ⟨?_, fun op legal => ?_⟩
  · obtain ⟨q, inv, hquiet⟩ := hsettled
    exact ⟨q, inv.handlersRight hquiet⟩
  · obtain ⟨w', hret, -⟩ := hsettled.exec TIMER_PERIOD hn hmax legal
    exact ⟨w', hret⟩

/-- A handler of processor 1 is created on processor 0 and started at once: it is pending, and
processor 1 is requested to call it. -/
theorem hdrRun_handlers_request :
    ∃ w : HdrState, (w.2.cyccb 0).cycstat = TCYC_STA ∧
      w.1.handler_queue 1 = ⟨false, true⟩ ∧ w.2.request 1 = true ∧
      (∃ q, HandlersRight 4 w q) ∧ ∀ op : HdrOp, op.Legal 2 w →
        ∃ w', Returns (fun fuel => op.exec 10 4 2 fuel w) w' := by
  let s₀ : Timer :=
    ⟨0, fun x => ⟨x, x⟩, fun _ => 0, fun _ => none, fun _ => 0, fun _ => ⟨false, false⟩⟩
  let h₀ : Hdrs := ⟨fun _ => ⟨.ready, false⟩, fun _ => ⟨0, 0, 0, 0, 0, 0, 0⟩, [], fun _ =>
    ⟨0, 0, 0, 0, 0, 0⟩, [], fun _ => [], fun _ => false⟩
  let w₀ := HdrState.boot 4 1 1 s₀ h₀
  let op : HdrOp := .creCyc 0 ⟨7, TA_ASSPRC ||| TA_STA, 8, 20, 0, 2, 1⟩ true E_OK
  let w₁ : HdrState := (op.exec 10 4 2 0 w₀).getD w₀
  have run₀ : HdrRun 10 4 2 w₀ := .boot 1 1 s₀ h₀ fun t hc => by simp [WaitTcb.Waits, h₀] at hc
  have run₁ : HdrRun 10 4 2 w₁ := by
    refine HdrRun.step run₀ (show op.Legal 2 w₀ from Nat.two_pos)
      ((returns_const w₁).congr fun fuel => ?_)
    subst op w₁ w₀ s₀ h₀
    with_unfolding_all rfl
  exact ⟨w₁, by decide +kernel, by decide +kernel, by
    decide +kernel, hdrRun_handlers (by omega) (by omega) run₁⟩

end SmpTKernel
