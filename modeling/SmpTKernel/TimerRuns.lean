import SmpTKernel.TimerInv

/-!
# Runs of the timer

Calls of the timer routines and ticks in any order. A callback makes calls of its own, as it sees
fit from what has happened so far.
-/

namespace SmpTKernel

open LinkRing Agenda Fuel

/-! ## Calls and ticks -/

/-- The waiting tasks, and what has happened. -/
structure TimerHist where
  tcb : Tsk → WaitTcb
  log : List TimerEvent

def TimerHist.note (h : TimerHist) (ev : TimerEvent) : TimerHist := { h with log := h.log ++ [ev] }

abbrev TimerWorld := Timer × TimerHist

inductive TimerCall
  | insert (event : Tmeb) (tmout : ℤ) (callback : Option Cback) (arg : ℕ)
  | insertReltim (event : Tmeb) (tmout : ℕ) (callback : Option Cback) (arg : ℕ)
  | insertAbs (event : Tmeb) (time : ℤ) (callback : Option Cback) (arg : ℕ)
  | delete (event : Tmeb)
  | makeWait (t : Tsk) (tmout : ℤ) (atr : ℕ)
  | makeWaitReltim (t : Tsk) (tmout : ℕ) (atr : ℕ)
  | waitRelease (t : Tsk)
  deriving DecidableEq, Repr

/-- What a callback does, as a function of what has happened so far. -/
abbrev TimerBody := List TimerEvent → List TimerCall

inductive TimerOp
  | call (c : TimerCall)
  | tick (body : TimerBody)

variable (P : ℕ)

def TimerCall.exec (fuel : ℕ) (w : TimerWorld) : TimerCall → Option TimerWorld
  | insert e tmout callback arg =>
    (timerInsert P fuel w.1 e tmout callback arg).map fun s =>
      (s, w.2.note (if tmout = TMO_FEVR then .parked e else .inserted (s.entry e)))
  | insertReltim e tmout callback arg =>
    (timerInsertReltim P fuel w.1 e tmout callback arg).map fun s =>
      (s, w.2.note (.inserted (s.entry e)))
  | insertAbs e time callback arg =>
    (timerInsertAbs fuel w.1 e time callback arg).map fun s => (s, w.2.note (.inserted (s.entry e)))
  | delete e => some (timerDelete w.1 e, w.2.note (.deleted e))
  | makeWait t tmout atr =>
    (SmpTKernel.makeWait P fuel w.1 w.2.tcb t tmout atr).map fun r =>
      (r.1, { w.2 with tcb := r.2 }.note
        (if tmout = TMO_FEVR then .parked (.wtmeb t) else .waited tmout (r.1.entry (.wtmeb t))))
  | makeWaitReltim t tmout atr =>
    (SmpTKernel.makeWaitReltim P fuel w.1 w.2.tcb t tmout atr).map fun r =>
      (r.1, { w.2 with tcb := r.2 }.note (.waited tmout (r.1.entry (.wtmeb t))))
  | waitRelease t =>
    let r := SmpTKernel.waitRelease w.1 w.2.tcb t
    some (r.1, { w.2 with tcb := r.2 }.note (.deleted (.wtmeb t)))

def runCalls (fuel : ℕ) : List TimerCall → TimerWorld → Option TimerWorld
  | [], w => some w
  | c :: cs, w => (c.exec P fuel w).bind (runCalls fuel cs)

/-- A callback: `wait_release_tmout` releases its task, and whatever else happens is up to
`body`. -/
def runCallback (body : TimerBody) (fuel : ℕ) (callback : Cback) (arg : ℕ) (w : TimerWorld) :
    Option TimerWorld :=
  let h :=
    if callback = .waitReleaseTmout then { w.2 with tcb := waitReleaseTmout w.2.tcb arg } else w.2
  runCalls P fuel (body w.2.log) (w.1, h)

/-- An event is started, which is noted. -/
def fireEvent (body : TimerBody) (fuel : ℕ) (e : Tmeb) (w : TimerWorld) : Option TimerWorld :=
  startEvent (runCallback P body fuel) e (w.1, w.2.note (.fired (w.1.entry e)))

def TimerOp.exec (fuel : ℕ) (w : TimerWorld) : TimerOp → Option TimerWorld
  | call c => c.exec P fuel w
  | tick body =>
    timerHandler P (fun s h => h.note (.ticked s.current_time)) (fireEvent P body fuel)
      (fun w => some (w.1, w.2.note .tickEnd)) fuel w

/-! ## What callers keep to -/

/-- What a call comes to at the time `now`. -/
def TimerCall.event (now : ℤ) : TimerCall → TimerEvent
  | insert e tmout callback arg =>
    if tmout = TMO_FEVR then .parked e else .inserted ⟨e, now + tmout + P, callback, arg⟩
  | insertReltim e tmout callback arg => .inserted ⟨e, now + tmout + P, callback, arg⟩
  | insertAbs e time callback arg => .inserted ⟨e, time, callback, arg⟩
  | delete e => .deleted e
  | makeWait t tmout _ =>
    if tmout = TMO_FEVR then .parked (.wtmeb t)
    else .waited tmout ⟨.wtmeb t, now + tmout + P, some .waitReleaseTmout, t⟩
  | makeWaitReltim t tmout _ => .waited tmout ⟨.wtmeb t, now + tmout + P, some .waitReleaseTmout, t⟩
  | waitRelease t => .deleted (.wtmeb t)

/-- An event that is inserted is not in the queue and has a time of the clock; one that is deleted
is in the queue, or was inserted without a time. -/
def Allowed (log : List TimerEvent) : TimerEvent → Prop
  | .inserted x | .waited _ x => (∀ y ∈ pendingEvents log, y.event ≠ x.event) ∧ InClock x.time
  | .parked e => ∀ y ∈ pendingEvents log, y.event ≠ e
  | .deleted e => (∃ x ∈ pendingEvents log, x.event = e) ∨ e ∈ parkedEvents log
  | _ => True

def TimerCall.Legal (log : List TimerEvent) (c : TimerCall) : Prop :=
  Allowed log (c.event P (clockOf log))

/-- Calls from a callback: legal one after the other, and inserting at later times only. -/
def Behaves : List TimerEvent → List TimerCall → Prop
  | _, [] => True
  | log, c :: cs =>
    c.Legal P log ∧ (∀ x, (c.event P (clockOf log)).Inserts x → clockOf log < x.time) ∧
      Behaves (log ++ [c.event P (clockOf log)]) cs

def TimerOp.Legal (log : List TimerEvent) : TimerOp → Prop
  | call c => c.Legal P log
  | tick body => InClock (clockOf log + P) ∧ ∀ log', Behaves P log' (body log')

/-- From a successful initialization, with no call that is not legal. -/
inductive TimerRun : TimerWorld → Prop
  | init {n : ℤ} {s₀ s : Timer} (tcb : Tsk → WaitTcb) (h : timerInitialize n P s₀ = (E_OK, s)) :
      TimerRun (s, ⟨tcb, []⟩)
  | step {w w' : TimerWorld} {op : TimerOp} (run : TimerRun w) (hl : op.Legal P w.2.log)
      (h : Returns (fun fuel => op.exec P fuel w) w') : TimerRun w'

/-! ## Calls -/

section Calls

variable {P} {s : Timer} {w : TimerWorld} {log : List TimerEvent} {e : Tmeb} {x : Entry}
  {callback : Option Cback} {arg : ℕ}

theorem llAdd_period (hP : P ≤ MAX_TIMER_PERIOD) {now tmout : ℤ} (hn : InClock now)
    (h : InClock (now + tmout + P)) :
    llAdd (llAdd now tmout) P = now + tmout + P := by
  obtain ⟨h₁, h₂⟩ := h
  obtain ⟨h₃, h₄⟩ := hn
  have hP : (P : ℤ) ≤ 50 := by exact_mod_cast hP
  have hsum : llAdd now tmout = now + tmout := longlong_eq (by omega) (by omega)
  rw [hsum]
  exact longlong_eq (by omega) h₂

theorem TimerInv.insertReltim (inv : TimerInv P s log) (hP : P ≤ MAX_TIMER_PERIOD) {tmout : ℕ}
    (hnot : ∀ y ∈ pendingEvents log, y.event ≠ e) (hx : InClock (clockOf log + tmout + P)) :
    ∃ s', Returns (fun fuel => timerInsertReltim P fuel s e tmout callback arg) s' ∧
      s'.entry e = ⟨e, clockOf log + tmout + P, callback, arg⟩ ∧
      ∀ ev : TimerEvent, ev.Inserts ⟨e, clockOf log + tmout + P, callback, arg⟩ →
        RightEvent P log ev →
        TimerInv P s' (log ++ [ev]) := by
  obtain ⟨s', hret, hs'⟩ := inv.arrive (x := ⟨e, clockOf log + tmout + P, callback, arg⟩) hnot hx
  refine ⟨s', hret.congr fun fuel => ?_, hs'⟩
  have htime := llAdd_period hP inv.clock_in hx
  rw [← inv.clock] at htime ⊢
  unfold timerInsertReltim
  dsimp only
  rw [show (s.setCallback e callback arg).current_time = s.current_time from rfl, htime]

theorem TimerInv.insert (inv : TimerInv P s log) (hP : P ≤ MAX_TIMER_PERIOD) {tmout : ℤ}
    (hne : tmout ≠ TMO_FEVR) (hnot : ∀ y ∈ pendingEvents log, y.event ≠ e)
    (hx : InClock (clockOf log + tmout + P)) :
    ∃ s', Returns (fun fuel => timerInsert P fuel s e tmout callback arg) s' ∧
      s'.entry e = ⟨e, clockOf log + tmout + P, callback, arg⟩ ∧
      ∀ ev : TimerEvent, ev.Inserts ⟨e, clockOf log + tmout + P, callback, arg⟩ →
        RightEvent P log ev →
        TimerInv P s' (log ++ [ev]) := by
  obtain ⟨s', hret, hs'⟩ := inv.arrive (x := ⟨e, clockOf log + tmout + P, callback, arg⟩) hnot hx
  refine ⟨s', hret.congr fun fuel => ?_, hs'⟩
  have htime := llAdd_period hP inv.clock_in hx
  rw [← inv.clock] at htime ⊢
  unfold timerInsert
  dsimp only
  rw [if_neg hne, show (s.setCallback e callback arg).current_time = s.current_time from rfl, htime]

theorem timerInsert_forever (fuel : ℕ) (s : Timer) :
    timerInsert P fuel s e TMO_FEVR callback arg =
      some { s.setCallback e callback arg with que := queInit (.tmeb e) s.que } := by
  unfold timerInsert
  exact if_pos rfl

/-- A call does what it comes to. -/
theorem TimerInv.call (inv : TimerInv P w.1 w.2.log) (hP : P ≤ MAX_TIMER_PERIOD) {c : TimerCall}
    (hl : c.Legal P w.2.log)
    (hlater : inTick w.2.log → ∀ x, (c.event P (clockOf w.2.log)).Inserts x →
      clockOf w.2.log < x.time) :
    ∃ w', Returns (fun fuel => c.exec P fuel w) w' ∧
      w'.2.log = w.2.log ++ [c.event P (clockOf w.2.log)] ∧ TimerInv P w'.1 w'.2.log := by
  unfold TimerCall.Legal at hl
  cases c with
  | insert e tmout callback arg =>
    by_cases hf : tmout = TMO_FEVR
    · subst hf
      refine ⟨_, (returns_const (_, w.2.note (.parked e))).congr fun fuel => ?_, rfl,
        inv.park hl callback arg⟩
      rw [TimerCall.exec, timerInsert_forever]
      rfl
    · rw [TimerCall.event, if_neg hf] at hl hlater ⊢
      obtain ⟨s', hret, hs', hinv⟩ := inv.insert hP hf hl.1 hl.2
      refine ⟨(s', w.2.note _), ?_, rfl, hinv _ (Or.inl rfl) ⟨hl.1, fun h =>
        hlater h _ (Or.inl rfl)⟩⟩
      have := hret.map fun s =>
        (s, w.2.note (if tmout = TMO_FEVR then .parked e else .inserted (s.entry e)))
      rwa [if_neg hf, hs'] at this
  | insertReltim e tmout callback arg =>
    obtain ⟨s', hret, hs', hinv⟩ := inv.insertReltim hP hl.1 hl.2
    refine ⟨(s', w.2.note _), ?_, rfl, hinv _ (Or.inl rfl) ⟨hl.1, fun h => hlater h _ (Or.inl rfl)⟩⟩
    have := hret.map fun s => (s, w.2.note (.inserted (s.entry e)))
    rwa [hs'] at this
  | insertAbs e time callback arg =>
    obtain ⟨s', hret, hs', hinv⟩ := inv.arrive (x := ⟨e, time, callback, arg⟩) hl.1 hl.2
    refine ⟨(s', w.2.note _), ?_, rfl, hinv _ (Or.inl rfl) ⟨hl.1, fun h => hlater h _ (Or.inl rfl)⟩⟩
    have := hret.map fun s => (s, w.2.note (.inserted (s.entry e)))
    rwa [hs'] at this
  | delete e => exact ⟨_, returns_const _, rfl, inv.delete hl⟩
  | makeWait t tmout atr =>
    let tcb := Function.update w.2.tcb t (enterWait atr (w.2.tcb t))
    by_cases hf : tmout = TMO_FEVR
    · subst hf
      refine ⟨_, (returns_const (_, { w.2 with tcb := tcb }.note (.parked (.wtmeb t)))).congr
        fun fuel => ?_, rfl, inv.park hl (some .waitReleaseTmout) t⟩
      rw [TimerCall.exec, SmpTKernel.makeWait, timerInsert_forever]
      rfl
    · rw [TimerCall.event, if_neg hf] at hl hlater ⊢
      obtain ⟨s', hret, hs', hinv⟩ := inv.insert hP hf hl.1 hl.2
      refine ⟨(s', { w.2 with tcb := tcb }.note _), ?_, rfl,
        hinv _ (Or.inr ⟨tmout, rfl⟩) ⟨⟨hl.1, fun h => hlater h _ (Or.inr ⟨tmout, rfl⟩)⟩, t, rfl⟩⟩
      have := (hret.map fun s => (s, tcb)).map fun r => (r.1, { w.2 with tcb := r.2 }.note
        (if tmout = TMO_FEVR then .parked (.wtmeb t) else .waited tmout (r.1.entry (.wtmeb t))))
      rw [if_neg hf] at this
      dsimp only at this
      rwa [hs'] at this
  | makeWaitReltim t tmout atr =>
    obtain ⟨s', hret, hs', hinv⟩ := inv.insertReltim hP hl.1 hl.2
    let tcb := Function.update w.2.tcb t (enterWait atr (w.2.tcb t))
    refine ⟨(s', { w.2 with tcb := tcb }.note _), ?_, rfl,
      hinv _ (Or.inr ⟨tmout, rfl⟩) ⟨⟨hl.1, fun h => hlater h _ (Or.inr ⟨tmout, rfl⟩)⟩, t, rfl⟩⟩
    have := (hret.map fun s => (s, tcb)).map fun r => (r.1, { w.2 with tcb := r.2 }.note
      (.waited tmout (r.1.entry (.wtmeb t))))
    dsimp only at this
    rwa [hs'] at this
  | waitRelease t => exact ⟨_, returns_const _, rfl, inv.delete hl⟩

/-- How much is due. -/
def dueCount (log : List TimerEvent) : ℕ := (dueBy (clockOf log) (pendingEvents log)).length

theorem dueBy_dropEvent_length (e : Tmeb) (now : ℤ) (p : List Entry) :
    (dueBy now (dropEvent e p)).length ≤ (dueBy now p).length := by
  rw [dueBy_dropEvent]
  exact List.length_filter_le _ _

/-- What a callback may do leaves the tick and its clock alone, and makes nothing due. -/
theorem call_within (hlater : ∀ x, ev.Inserts x → clockOf log < x.time)
    (hev : ∃ (c : TimerCall) (now : ℤ), ev = c.event P now) :
    clockOf (log ++ [ev]) = clockOf log ∧ inTick (log ++ [ev]) = inTick log ∧
      dueCount (log ++ [ev]) ≤ dueCount log := by
  have hclock : clockOf (log ++ [ev]) = clockOf log ∧ inTick (log ++ [ev]) = inTick log := by
    rw [clockOf_concat, inTick_concat]
    obtain ⟨c, now, rfl⟩ := hev
    cases c with
    | insert e tmout callback arg =>
      rw [TimerCall.event]
      split_ifs <;> exact ⟨rfl, rfl⟩
    | makeWait t tmout atr =>
      rw [TimerCall.event]
      split_ifs <;> exact ⟨rfl, rfl⟩
    | _ => exact ⟨rfl, rfl⟩
  refine ⟨hclock.1, hclock.2, ?_⟩
  unfold dueCount
  rw [hclock.1, pendingEvents_concat]
  cases ev with
  | inserted x => exact (congrArg List.length (dueBy_concat_of_lt (hlater x (Or.inl rfl)) _)).le
  | waited tmout x =>
    exact (congrArg List.length (dueBy_concat_of_lt (hlater x (Or.inr ⟨tmout, rfl⟩)) _)).le
  | deleted e => exact dueBy_dropEvent_length e _ _
  | fired x => exact dueBy_dropEvent_length x.event _ _
  | parked _ => exact le_rfl
  | ticked _ => exact le_rfl
  | tickEnd => exact le_rfl

theorem TimerInv.calls (hP : P ≤ MAX_TIMER_PERIOD) : ∀ {cs : List TimerCall} {w : TimerWorld},
    TimerInv P w.1 w.2.log → Behaves P w.2.log cs →
    ∃ w', Returns (fun fuel => runCalls P fuel cs w) w' ∧ TimerInv P w'.1 w'.2.log ∧
      clockOf w'.2.log = clockOf w.2.log ∧ inTick w'.2.log = inTick w.2.log ∧
        dueCount w'.2.log ≤ dueCount w.2.log
  | [], w, inv, _ => ⟨w, returns_const w, inv, rfl, rfl, le_rfl⟩
  | c :: cs, w, inv, ⟨hl, hlater, hcs⟩ => by
    obtain ⟨w₁, hret₁, hlog, inv₁⟩ := inv.call hP hl fun _ => hlater
    obtain ⟨hclock, htick, hdue⟩ := call_within (P := P) hlater ⟨c, _, rfl⟩
    rw [← hlog] at hclock htick hdue hcs
    obtain ⟨w₂, hret₂, inv₂, hclock₂, htick₂, hdue₂⟩ := TimerInv.calls hP inv₁ hcs
    exact ⟨w₂, hret₁.bind (g := fun w fuel => runCalls P fuel cs w) hret₂, inv₂,
      hclock₂.trans hclock, htick₂.trans htick, hdue₂.trans hdue⟩

end Calls

/-! ## Ticks -/

section Ticks

variable {P} {w : TimerWorld} {body : TimerBody} {x : Entry} {l : List Entry}

/-- The first event of the queue is started when its time has been reached. -/
theorem TimerInv.fireEvent (inv : TimerInv P w.1 w.2.log) (hP : P ≤ MAX_TIMER_PERIOD)
    (hbody : ∀ log, Behaves P log (body log))
    (hl : Sorts Entry.time (pendingEvents w.2.log) (x :: l)) (hx : x.time ≤ clockOf w.2.log) :
    ∃ w', Returns (fun fuel => SmpTKernel.fireEvent P body fuel x.event (timerDelete w.1 x.event,
      w.2)) w' ∧
      TimerInv P w'.1 w'.2.log ∧ clockOf w'.2.log = clockOf w.2.log ∧
        inTick w'.2.log = inTick w.2.log ∧
      dueCount w'.2.log < dueCount w.2.log := by
  have hmem : x ∈ pendingEvents w.2.log := hl.mem_iff.mp List.mem_cons_self
  have hentry : (timerDelete w.1 x.event).entry x.event = x := inv.blocks x hmem
  have hfired := inv.fire hl hx
  have hclock : clockOf (w.2.log ++ [.fired x]) = clockOf w.2.log := clockOf_concat ..
  have htick : inTick (w.2.log ++ [.fired x]) = inTick w.2.log := inTick_concat ..
  have hdue : dueCount (w.2.log ++ [.fired x]) < dueCount w.2.log := by
    unfold dueCount
    rw [hclock, pendingEvents_concat]
    show (dueBy _ (dropEvent x.event _)).length < _
    rw [dueBy_dropEvent]
    apply List.length_filter_lt_length_iff_exists.mpr
    exact ⟨x, mem_dueBy.mpr ⟨hmem, hx⟩, by simp⟩
  have hstart (fuel : ℕ) : SmpTKernel.fireEvent P body fuel x.event (timerDelete w.1 x.event, w.2) =
      startEvent (runCallback P body fuel) x.event (timerDelete w.1 x.event, w.2.note
        (.fired x)) := by
    unfold SmpTKernel.fireEvent
    rw [hentry]
  cases hcb : x.callback with
  | none =>
    refine ⟨(timerDelete w.1 x.event, w.2.note (.fired x)), (returns_const _).congr fun fuel => ?_,
      hfired, hclock, htick, hdue⟩
    rw [hstart, startEvent, show (timerDelete w.1 x.event).callback x.event = none from
      (congrArg Entry.callback hentry).trans hcb]
  | some callback =>
    let tcb := if callback = .waitReleaseTmout then waitReleaseTmout w.2.tcb x.arg else w.2.tcb
    obtain ⟨w', hret, inv', hclock', htick', hdue'⟩ := TimerInv.calls hP
      (w := (timerDelete w.1 x.event, ⟨tcb, w.2.log ++ [.fired x]⟩)) hfired (hbody _)
    refine ⟨w', hret.congr fun fuel => ?_, inv', hclock'.trans hclock, htick'.trans htick,
      hdue'.trans_lt hdue⟩
    rw [hstart, startEvent, show (timerDelete w.1 x.event).callback x.event = some callback from
      (congrArg Entry.callback hentry).trans hcb]
    dsimp only
    rw [show (timerDelete w.1 x.event).arg x.event = x.arg from congrArg Entry.arg hentry]
    unfold runCallback
    dsimp only [tcb]
    split_ifs <;> rfl

/-- **The expiry loop** ends, with nothing due any more. -/
theorem TimerInv.expire (hP : P ≤ MAX_TIMER_PERIOD) (hbody : ∀ log, Behaves P log (body log))
    {n : ℕ} :
    ∀ {w : TimerWorld}, TimerInv P w.1 w.2.log → dueCount w.2.log = n →
    ∃ w' k, (∀ i j, k ≤ i → k ≤ j → SmpTKernel.expire (SmpTKernel.fireEvent P body i) j w =
      some w') ∧
      TimerInv P w'.1 w'.2.log ∧ clockOf w'.2.log = clockOf w.2.log ∧
      ∀ x ∈ pendingEvents w'.2.log, clockOf w'.2.log < x.time := by
  induction n using Nat.strong_induction_on with
  | _ n ih =>
    intro w inv hn
    obtain ⟨l, hl, hring⟩ := inv.queue
    have hnext : (w.1.que timerHead).next = ((l.map Entry.event).map .tmeb).headD timerHead :=
      hring.next_head
    cases l with
    | nil =>
      refine ⟨w, 1, fun i j _ hj => ?_, inv, rfl, fun x hx =>
        absurd (hl.mem_iff.mpr hx) List.not_mem_nil⟩
      obtain ⟨j, rfl⟩ := Nat.exists_eq_add_of_le' hj
      rw [SmpTKernel.expire, hnext]
      rfl
    | cons x l =>
      have hmem : x ∈ pendingEvents w.2.log := hl.mem_iff.mp List.mem_cons_self
      have htime : w.1.time x.event = x.time := congrArg Entry.time (inv.blocks x hmem)
      have hcmp : llCmp (w.1.time x.event) w.1.current_time = x.time - clockOf w.2.log := by
        rw [htime, inv.clock]
        exact llCmp_eq (inv.inClock x hmem) inv.clock_in
      by_cases hdue : x.time - clockOf w.2.log > 0
      · refine ⟨w, 1, fun i j _ hj => ?_, inv, rfl, fun y hy => ?_⟩
        · obtain ⟨j, rfl⟩ := Nat.exists_eq_add_of_le' hj
          rw [SmpTKernel.expire, hnext, List.map_cons, List.map_cons, List.headD_cons]
          dsimp only
          rw [hcmp, if_pos hdue]
        · have := hl.head_le hy
          omega
      · obtain ⟨w₁, ⟨k₁, hret⟩, inv₁, hclock₁, -, hlt⟩ := inv.fireEvent hP hbody hl (by omega)
        obtain ⟨w₂, k₂, hret₂, inv₂, hclock₂, hend⟩ := ih _ (hn ▸ hlt) inv₁ rfl
        refine ⟨w₂, max k₁ (k₂ + 1), fun i j hi hj => ?_, inv₂, hclock₂.trans hclock₁, hend⟩
        obtain ⟨j, rfl⟩ : ∃ j', j = j' + 1 := ⟨j - 1, by omega⟩
        rw [SmpTKernel.expire, hnext, List.map_cons, List.map_cons, List.headD_cons]
        dsimp only
        rw [hcmp, if_neg hdue]
        have hfire : SmpTKernel.fireEvent P body i x.event (timerDelete w.1 x.event, w.2) =
          some w₁ := hret i (by omega)
        unfold timerDelete at hfire
        rw [hfire]
        exact hret₂ i j (by omega) (by omega)

theorem TimerInv.timerHandler (inv : TimerInv P w.1 w.2.log) (hP : P ≤ MAX_TIMER_PERIOD)
    (hnow : InClock (clockOf w.2.log + P)) (hbody : ∀ log, Behaves P log (body log)) :
    ∃ w', Returns (fun fuel => (TimerOp.tick body).exec P fuel w) w' ∧ TimerInv P w'.1 w'.2.log ∧
      inTick w'.2.log = false := by
  have inv₁ := inv.tick hnow
  obtain ⟨w', k, hret, inv', hclock, hend⟩ := TimerInv.expire hP hbody
    (w := ({ w.1 with current_time := llAdd w.1.current_time P }, w.2.note
      (.ticked (clockOf w.2.log + P)))) inv₁ rfl
  refine ⟨(w'.1, w'.2.note .tickEnd), ⟨k, fun fuel hf => ?_⟩, inv'.tickEnd hend, inTick_concat ..⟩
  have htime : llAdd w.1.current_time P = clockOf w.2.log + P :=
    inv₁.clock.trans (clockOf_concat ..)
  have hret := hret fuel fuel hf hf
  show TimerOp.exec P fuel w (.tick body) = _
  rw [TimerOp.exec, SmpTKernel.timerHandler]
  dsimp only
  rw [htime] at hret ⊢
  rw [hret]
  rfl

end Ticks

/-! ## Runs -/

section Runs

variable {P} {w : TimerWorld}

theorem handlerInitialize_frame (s : Timer) :
    (handlerInitialize s).current_time = s.current_time ∧
      (handlerInitialize s).que timerHead = s.que timerHead := by
  unfold handlerInitialize
  induction List.range MAX_PROC generalizing s with
  | nil => exact ⟨rfl, rfl⟩
  | cons i l ih =>
    obtain ⟨htime, hque⟩ := ih
      { s with
        handler_queue := Function.update s.handler_queue i ⟨false, false⟩
        que := queInit (.que (.hdrque i)) s.que }
    refine ⟨htime, hque.trans ?_⟩
    exact single_apply_of_ne (fun h : timerHead = .que (.hdrque i) =>
      nomatch TimerNode.que.inj h) s.que

theorem timerInitialize_ok {n : ℤ} {s₀ s : Timer} (h : timerInitialize n P s₀ = (E_OK, s)) :
    P ≤ MAX_TIMER_PERIOD ∧ TimerInv P s [] := by
  unfold timerInitialize at h
  split_ifs at h with hc
  · exact absurd (congrArg Prod.fst h) (show (E_SYS : ER) ≠ E_OK by decide)
  · obtain ⟨-, rfl⟩ := Prod.mk.inj h
    push Not at hc
    have hnone {p : Entry → Prop} : ∀ x ∈ pendingEvents [], p x :=
      fun x hx => absurd hx List.not_mem_nil
    obtain ⟨htime, hque⟩ := handlerInitialize_frame
      { s₀ with current_time := 0, que := queInit (.que .timerQueue) s₀.que }
    refine ⟨hc.2.2, ⟨[], Sorts.nil, ?_⟩, hnone, hnone, fun e he => absurd he List.not_mem_nil,
      htime, ?_, RightHistory.nil⟩
    · exact isRing_nil.mpr (hque.trans (single_apply_self timerHead s₀.que))
    · exact ⟨le_rfl, by decide⟩

theorem TimerOp.returns (inv : TimerInv P w.1 w.2.log) (hP : P ≤ MAX_TIMER_PERIOD)
    (htick : inTick w.2.log = false) {op : TimerOp} (hl : op.Legal P w.2.log) :
    ∃ w', Returns (fun fuel => op.exec P fuel w) w' ∧ TimerInv P w'.1 w'.2.log ∧
      inTick w'.2.log = false := by
  cases op with
  | call c =>
    obtain ⟨w', hret, hlog, inv'⟩ :=
      inv.call hP hl fun h => absurd h (by rw [htick]; exact Bool.false_ne_true)
    refine ⟨w', hret, inv', ?_⟩
    rw [hlog, inTick_concat, htick]
    cases c with
    | insert e tmout callback arg =>
      rw [TimerCall.event]
      split_ifs <;> rfl
    | makeWait t tmout atr =>
      rw [TimerCall.event]
      split_ifs <;> rfl
    | _ => rfl
  | tick body => exact inv.timerHandler hP hl.1 hl.2

theorem TimerRun.inv (run : TimerRun P w) :
    P ≤ MAX_TIMER_PERIOD ∧ TimerInv P w.1 w.2.log ∧ inTick w.2.log = false := by
  induction run with
  | init tcb h => exact ⟨(timerInitialize_ok h).1, (timerInitialize_ok h).2, rfl⟩
  | step run hl h ih =>
    obtain ⟨hP, inv, htick⟩ := ih
    obtain ⟨w', hret, inv', htick'⟩ := TimerOp.returns inv hP htick hl
    obtain rfl := h.unique hret
    exact ⟨hP, inv', htick'⟩

/-- The ring of the timer queue holds the events that were inserted and neither fired nor deleted,
in the order of their times, those of one time in the order of their insertion. -/
def QueueRight (s : Timer) (log : List TimerEvent) : Prop :=
  ∃ l, Sorts Entry.time (pendingEvents log) l ∧ TimerRing s.que (l.map Entry.event) ∧
    ∀ x ∈ l, s.entry x.event = x

/-- What is fired was in the queue, and its time had come. -/
def FiredRight (log : List TimerEvent) : Prop :=
  ∀ a x b, log = a ++ .fired x :: b → x ∈ pendingEvents a ∧ x.time ≤ clockOf a

/-- **The timer.** In every run the queue is in order, each tick fires the events that are due and
no others, a wait times out with the first tick that has reached its time, and every call and every
tick comes to an end. -/
theorem timerRun_fires (run : TimerRun P w) :
    QueueRight w.1 w.2.log ∧ TicksRight w.2.log ∧ FiredRight w.2.log ∧ WaitsRight P w.2.log ∧
      ∀ op : TimerOp, op.Legal P w.2.log → ∃ w', Returns (fun fuel => op.exec P fuel w) w' := by
  obtain ⟨hP, inv, htick⟩ := run.inv
  obtain ⟨l, hl, hring⟩ := inv.queue
  refine ⟨⟨l, hl, hring, fun x hx => inv.blocks x (hl.mem_iff.mp hx)⟩, inv.right.ticksRight,
    fun a x b h => inv.right.fired_pending h, inv.right.waitsRight, fun op hop => ?_⟩
  obtain ⟨w', hret, -⟩ := TimerOp.returns inv hP htick hop
  exact ⟨w', hret⟩

/-! ## Runs that are evaluated -/

theorem steady_enqueuePlace (s : Timer) (e : Tmeb) (q : TimerNode) :
    Steady fun n => enqueuePlace s e n q := by
  intro n
  induction n generalizing q with
  | zero => nofun
  | succ n ih =>
    intro a h
    simp only [enqueuePlace] at h ⊢
    split at h
    · exact h
    · split_ifs at h ⊢ with hless
      · exact h
      · exact ih _ a h

theorem steady_enqueueTmeb (s : Timer) (e : Tmeb) : Steady fun n => enqueueTmeb n s e :=
  (steady_enqueuePlace s e _).map _

theorem steady_timerInsert (s : Timer) (e : Tmeb) (tmout : ℤ) (callback : Option Cback) (arg : ℕ) :
    Steady fun n => timerInsert P n s e tmout callback arg := by
  unfold timerInsert
  by_cases htmout : tmout = TMO_FEVR
  · simp only [if_pos htmout]
    exact steady_const _
  · simp only [if_neg htmout]
    exact steady_enqueueTmeb _ e

theorem steady_call (c : TimerCall) (w : TimerWorld) : Steady fun n => c.exec P n w := by
  cases c with
  | insert e tmout callback arg => exact (steady_timerInsert w.1 e tmout callback arg).map _
  | insertReltim e tmout callback arg => exact (steady_enqueueTmeb _ e).map _
  | insertAbs e time callback arg => exact (steady_enqueueTmeb _ e).map _
  | delete e => exact steady_const _
  | makeWait t tmout atr => exact ((steady_timerInsert w.1 _ tmout _ t).map _).map _
  | makeWaitReltim t tmout atr => exact ((steady_enqueueTmeb _ _).map _).map _
  | waitRelease t => exact steady_const _

theorem steady_runCalls (cs : List TimerCall) (w : TimerWorld) :
    Steady fun n => runCalls P n cs w := by
  induction cs generalizing w with
  | nil => exact steady_const _
  | cons c cs ih => exact (steady_call c w).bind ih

theorem steady_fireEvent (body : TimerBody) (e : Tmeb) (w : TimerWorld) :
    Steady fun n => fireEvent P body n e w := by
  unfold fireEvent startEvent
  cases w.1.callback e with
  | none => exact steady_const _
  | some callback => exact steady_runCalls _ _

theorem steady_expire {start : ℕ → Tmeb → TimerWorld → Option TimerWorld}
    (hstart : ∀ e w, Steady fun n => start n e w) (w : TimerWorld) :
    Steady fun n => expire (start n) n w := by
  have hmono (m n : ℕ) : ∀ w a, expire (start n) m w = some a →
      expire (start (n + 1)) (m + 1) w = some a := by
    induction m with
    | zero => nofun
    | succ m ih =>
      intro w a h
      rw [expire] at h ⊢
      split at h
      · exact h
      · split_ifs at h ⊢ with hlater
        · exact h
        · obtain ⟨w', hw', h⟩ := Option.bind_eq_some_iff.mp h
          exact Option.bind_eq_some_iff.mpr ⟨w', hstart _ _ n w' hw', ih w' a h⟩
  exact fun n a h => hmono n n w a h

theorem TimerOp.steady (op : TimerOp) (w : TimerWorld) : Steady fun n => op.exec P n w := by
  cases op with
  | call c => exact steady_call c w
  | tick body => exact (steady_expire (steady_fireEvent body) _).bind fun _ => steady_const _

theorem TimerRun.next (run : TimerRun P w) (op : TimerOp) (hl : op.Legal P w.2.log) (n : ℕ)
    (h : (op.exec P n w).isSome) : TimerRun P ((op.exec P n w).get h) :=
  run.step hl ((op.steady w).returns (Option.some_get h).symm)

section Cyclic

/-- The event of a cyclic handler, for the time `time`. -/
def cyclicEntry (time : ℤ) : Entry := ⟨.cyctmeb 0, time, some .distributeCychdr, 0⟩

def alarmEntry : Entry := ⟨.almtmeb 0, 25, some .distributeAlmhdr, 0⟩

def waitEntry : Entry := ⟨.wtmeb 1, 10, some .waitReleaseTmout, 1⟩

/-- Up to the callback of the first event. -/
def cyclicLog : List TimerEvent :=
  [.inserted (cyclicEntry 10), .waited 0 waitEntry, .inserted alarmEntry, .ticked 10,
    .fired (cyclicEntry 10)]

/-- The handler is to be called again at 20, and the alarm is stopped. -/
def cyclicBody : TimerBody := fun log =>
  if log = cyclicLog then
    [.insertAbs (.cyctmeb 0) 20 (some .distributeCychdr) 0, .delete (.almtmeb 0)]
  else []

theorem behaves_cyclicBody (log : List TimerEvent) : Behaves 10 log (cyclicBody log) := by
  unfold cyclicBody
  split_ifs with h
  · subst h
    refine ⟨⟨by decide, by unfold InClock; decide⟩, fun x hx => ?_, ?_, fun x hx => ?_, trivial⟩
    · obtain hx | ⟨_, hx⟩ := hx <;> cases hx
      decide
    · exact .inl ⟨alarmEntry, by decide, rfl⟩
    · obtain hx | ⟨_, hx⟩ := hx <;> cases hx
  · trivial

/-- A cyclic handler and a wait of one tick at the same time, and an alarm. In the first tick two
events fire, in the order of their insertion; the callback of the first one inserts its event anew,
for the next tick, and deletes the alarm. -/
theorem timerRun_fires_cyclic :
    ∃ w : TimerWorld, w.2.log = cyclicLog ++ [.inserted (cyclicEntry 20),
        .deleted (.almtmeb 0), .fired waitEntry, .tickEnd,
        .ticked 20, .fired (cyclicEntry 20), .tickEnd] ∧
      QueueRight w.1 w.2.log ∧ TicksRight w.2.log ∧ FiredRight w.2.log ∧ WaitsRight 10 w.2.log ∧
      ∀ op : TimerOp, op.Legal 10 w.2.log → ∃ w', Returns (fun fuel => op.exec 10 fuel w) w' := by
  let s₀ : Timer := ⟨0, fun _ => ⟨timerHead, timerHead⟩, fun _ => 0, fun _ => none, fun _ =>
    0, fun _ => ⟨false, false⟩⟩
  let w₀ : TimerWorld := ((timerInitialize 1 10 s₀).2, ⟨fun _ => ⟨.ready, false⟩, []⟩)
  have run₀ : TimerRun 10 w₀ := .init _ (show timerInitialize 1 10 s₀ = (E_OK, w₀.1) from rfl)
  have run₁ := run₀.next (.call (.insertReltim (.cyctmeb 0) 0 (some .distributeCychdr) 0))
    ⟨nofun, by unfold InClock; decide⟩ 4 rfl
  have run₂ := run₁.next (.call (.makeWait 1 0 0)) ⟨by decide, by unfold InClock; decide⟩ 4 rfl
  have run₃ := run₂.next (.call (.insertReltim (.almtmeb 0) 15 (some .distributeAlmhdr) 0))
    ⟨by decide, by unfold InClock; decide⟩ 4 (by decide +kernel)
  have run₄ :=
    run₃.next (.tick cyclicBody) ⟨by unfold InClock; decide, behaves_cyclicBody⟩ 4
      (by decide +kernel)
  have run₅ :=
    run₄.next (.tick fun _ => []) ⟨by unfold InClock; decide, fun _ => trivial⟩ 4
      (by decide +kernel)
  exact ⟨_, by decide +kernel, timerRun_fires run₅⟩

end Cyclic

end Runs

end SmpTKernel
