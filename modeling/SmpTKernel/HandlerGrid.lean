import SmpTKernel.HandlerRuns
import SmpTKernel.TimerInv
import SmpTKernel.Lib.Grid

/-!
# Cyclic handlers do not drift

The times of a cyclic handler lie on the grid of its first one: a call sets the first time of the
grid that is later than the clock, however late it comes, and a handler with `TA_PHS` goes on with
the grid when it is started again.
-/

namespace SmpTKernel

open LinkRing Fuel

/-! ## What is said of a handler -/

/-- When the handler is to be called next. -/
abbrev HdrState.cycTime (w : HdrState) (i : ℕ) : ℤ := w.1.time (.cyctmeb i)

abbrev HdrState.now (w : HdrState) : ℤ := w.1.current_time

abbrev HdrState.period (w : HdrState) (i : ℕ) : ℕ := (w.2.cyccb i).cyctim

/-- The handler exists. -/
def HdrState.HasCyc (w : HdrState) (i : ℕ) : Prop := (w.2.cyccb i).cychdr ≠ 0

/-- It is the handler `i` that runs. -/
def HdrFrame.IsCyc (i : ℕ) : HdrFrame → Prop
  | cychdr j _ | immCychdr j _ => j = i
  | almhdr _ _ | immAlmhdr _ _ => False

/-- The handlers that still run when the one that returns has. -/
def HdrOp.still (w : HdrState) : HdrOp → ℕ → List HdrFrame
  | resume prid => Function.update w.2.running prid (w.2.running prid).tail
  | _ => w.2.running

/-- The operation ends with a call of the handler. -/
def CycCalled (i : ℕ) (op : HdrOp) (w w' : HdrState) : Prop :=
  ∃ prid frame, frame.IsCyc i ∧ w'.2.running prid = frame :: op.still w prid

/-- The arguments fit in their words. -/
def HdrOp.Sized : HdrOp → Prop
  | creCyc _ pk _ _ => pk.cyctim < 2 ^ 32 ∧ pk.cycphs < 2 ^ 32
  | _ => True

/-- The clock stays away from the end of its 64 bits by as long as two handler times are long. -/
def HdrState.ClockFits (w : HdrState) : Prop := w.now + 2 ^ 33 ≤ 2 ^ 63

/-- The handler is not deleted, and not started with a new grid. -/
def HdrOp.KeepsGrid (i : ℕ) (w : HdrState) (op : HdrOp) : Prop :=
  op ≠ .delCyc i true E_OK ∧ (op = .staCyc i true E_OK → (w.2.cyccb i).cycatr &&& TA_PHS ≠ 0)

section Run

variable (TIMER_PERIOD maxProc numProc : ℕ)

/-- One operation. -/
structure CycOp (op : HdrOp) (w w' : HdrState) : Prop where
  legal : op.Legal numProc w
  sized : op.Sized
  returns : Returns (fun fuel => op.exec TIMER_PERIOD maxProc numProc fuel w) w'
  clock : w'.ClockFits

/-- Runs within the 64 bits of the clock. -/
inductive CycRun : HdrState → Prop
  | boot (numCycid numAlmid : ℕ) (s : Timer) (h : Hdrs) (htcb : ∀ t, ¬(h.tcb t).Waits) :
      CycRun (HdrState.boot maxProc numCycid numAlmid s h)
  | step {w w' : HdrState} {op : HdrOp} (run : CycRun w)
      (step : CycOp TIMER_PERIOD maxProc numProc op w w') : CycRun w'

/-- From `w` on, while the handler keeps its grid: `times` are the times that its calls were due
at. -/
inductive CycTrail (i : ℕ) (w : HdrState) : List ℤ → HdrState → Prop
  | start : CycTrail i w [] w
  | quiet {times : List ℤ} {w₁ w' : HdrState} {op : HdrOp} (trail : CycTrail i w times w₁)
      (step : CycOp TIMER_PERIOD maxProc numProc op w₁ w') (keeps : op.KeepsGrid i w₁)
      (h : ¬CycCalled i op w₁ w') : CycTrail i w times w'
  | called {times : List ℤ} {w₁ w' : HdrState} {op : HdrOp} (trail : CycTrail i w times w₁)
      (step : CycOp TIMER_PERIOD maxProc numProc op w₁ w') (keeps : op.KeepsGrid i w₁)
      (h : CycCalled i op w₁ w') : CycTrail i w (times ++ [w₁.cycTime i]) w'

end Run

variable {TIMER_PERIOD maxProc numProc prid fuel i j : ℕ} {s s' : Timer} {h : Hdrs}
  {w w₁ w' : HdrState} {q : TimerQue → List Tmeb} {e : Tmeb} {op : HdrOp} {tm : ℤ}
  {frame : HdrFrame}

/-! ## The next startup time -/

/-- **The next startup time** is the first time of the grid that is later than the clock, if that is
within its 64 bits. -/
theorem cycNextTime_isLeast (htime : InClock (w.cycTime i)) (hnow : InClock w.now)
    (hp : 0 < w.period i) (hfits : ∃ x ∈ Grid.later (w.cycTime i) (w.period i) w.now, x < 2 ^ 63) :
    IsLeast (Grid.later (w.cycTime i) (w.period i) w.now) (cycNextTime i w) := by
  obtain ⟨ht, ht'⟩ := htime
  obtain ⟨hn, hn'⟩ := hnow
  obtain ⟨x, hx, hlt⟩ := hfits
  have hp' : (0 : ℤ) < w.period i := by exact_mod_cast hp
  have hstep : w.cycTime i + w.period i < 2 ^ 63 := by
    have hle := Grid.lt_of_mem hp' hx
    obtain ⟨k, hk, rfl, -⟩ := hx
    have hmul : 1 * (w.period i : ℤ) ≤ k * w.period i :=
      Int.mul_le_mul_of_nonneg_right (by exact_mod_cast hk) hp'.le
    omega
  have hadd : llAdd (w.cycTime i) (w.period i) = w.cycTime i + w.period i :=
    longlong_eq (by omega) hstep
  have hcmp : llCmp (w.cycTime i + w.period i) w.now = w.cycTime i + w.period i - w.now :=
    longlong_eq (by omega) (by omega)
  show IsLeast _ (if llCmp (llAdd (w.cycTime i) (w.period i)) w.now ≤ 0 then
    llAdd (w.cycTime i) (luiMul (longlong (luiDiv (llSub w.now (w.cycTime i)) (w.period i) + 1))
      (w.period i))
    else llAdd (w.cycTime i) (w.period i))
  rw [hadd, hcmp]
  split_ifs with hlate
  · have hle : w.cycTime i ≤ w.now := by omega
    have hleast := Grid.isLeast_skip hp' hle
    have hbound := lt_of_le_of_lt (hleast.2 hx) hlt
    have hsub : llSub w.now (w.cycTime i) = w.now - w.cycTime i := longlong_eq (by omega) (by omega)
    have hquot : luiDiv (w.now - w.cycTime i) (w.period i) =
        (w.now - w.cycTime i) / w.period i := by
      unfold luiDiv
      rw [Int.tdiv_eq_ediv_of_nonneg (by omega)]
      have := Int.ediv_nonneg (show 0 ≤ w.now - w.cycTime i by omega) hp'.le
      have := Int.ediv_le_self (w.period i : ℤ) (show 0 ≤ w.now - w.cycTime i by omega)
      exact longlong_eq (by omega) (by omega)
    rw [hsub, hquot]
    set n := (w.now - w.cycTime i) / w.period i with hdef
    have hn0 : 0 ≤ n := Int.ediv_nonneg (by omega) hp'.le
    have hmul : (n + 1) * w.period i < 2 ^ 63 := by omega
    have hmul0 : (n + 1) * 1 ≤ (n + 1) * w.period i := Int.mul_le_mul_of_nonneg_left hp' (by omega)
    rw [longlong_eq (x := n + 1) (by omega) (by omega)]
    have hprod : luiMul (n + 1) (w.period i) = (n + 1) * w.period i := longlong_eq (by omega) hmul
    have hsum : llAdd (w.cycTime i) ((n + 1) * w.period i) = w.cycTime i + (n + 1) * w.period i :=
      longlong_eq (by omega) hbound
    rwa [hprod, hsum]
  · exact Grid.isLeast_next hp' (by omega)

/-- The next startup time depends on the time, the period and the clock only. -/
theorem cycNextTime_congr (htime : w'.cycTime i = w.cycTime i) (hperiod : w'.period i = w.period i)
    (hnow : w'.now = w.now) : cycNextTime i w' = cycNextTime i w := by
  unfold cycNextTime
  simp only [htime, hperiod, hnow]

/-! ## What a routine does to a handler -/

/-- The block of the handler keeps what was set when it was created. -/
structure CycBlock (i : ℕ) (w w' : HdrState) : Prop where
  cychdr : (w'.2.cyccb i).cychdr = (w.2.cyccb i).cychdr
  cyctim : w'.period i = w.period i
  cycatr : (w'.2.cyccb i).cycatr = (w.2.cyccb i).cycatr
  now : w'.now = w.now

/-- The time stays, and a handler becomes pending only when the time has come. -/
structure CycSame (i : ℕ) (w w' : HdrState) : Prop extends CycBlock i w w' where
  started : (w'.2.cyccb i).Started → (w.2.cyccb i).Started
  time : w'.cycTime i = w.cycTime i
  callback : w'.1.callback (.cyctmeb i) = w.1.callback (.cyctmeb i) ∨
    w'.1.callback (.cyctmeb i) = some .callCychdr ∧ w.cycTime i ≤ w.now

/-- A pending handler is called, and its next time is set. -/
structure CycCall (i : ℕ) (w w' : HdrState) : Prop extends CycBlock i w w' where
  started : (w.2.cyccb i).Started
  due : w.1.callback (.cyctmeb i) = some .callCychdr ∨ w.cycTime i ≤ w.now
  time : w'.cycTime i = cycNextTime i w
  callback : w'.1.callback (.cyctmeb i) = some .distributeCychdr
  running : ∃ prid frame, frame.IsCyc i ∧ w'.2.running prid = frame :: w.2.running prid

/-- At most another handler is called. -/
def OthersRun (i : ℕ) (w w' : HdrState) : Prop :=
  ∀ prid, w'.2.running prid = w.2.running prid ∨
    ∃ frame : HdrFrame, ¬frame.IsCyc i ∧ w'.2.running prid = frame :: w.2.running prid

def CycMove (i : ℕ) (w w' : HdrState) : Prop := CycSame i w w' ∧ OthersRun i w w' ∨ CycCall i w w'

theorem CycBlock.trans (b : CycBlock i w w₁) (b' : CycBlock i w₁ w') : CycBlock i w w' :=
  ⟨b'.cychdr.trans b.cychdr, b'.cyctim.trans b.cyctim, b'.cycatr.trans b.cycatr, b'.now.trans b.now⟩

theorem CycSame.trans (a : CycSame i w w₁) (b : CycSame i w₁ w') : CycSame i w w' where
  toCycBlock := a.toCycBlock.trans b.toCycBlock
  started := fun hs => a.started (b.started hs)
  time := b.time.trans a.time
  callback := by
    rcases b.callback with hb | ⟨hb, hle⟩
    · exact a.callback.imp hb.trans fun ha => ⟨hb.trans ha.1, ha.2⟩
    · exact Or.inr ⟨hb, by rwa [a.time, a.now] at hle⟩

/-- A routine that does not write the block of the handler or its event. -/
theorem CycSame.of_eq (hcyccb : w'.2.cyccb i = w.2.cyccb i) (htime : w'.cycTime i = w.cycTime i)
    (hnow : w'.now = w.now) (hcallback : w'.1.callback (.cyctmeb i) = w.1.callback (.cyctmeb i)) :
    CycSame i w w' where
  cychdr := by rw [hcyccb]
  cyctim := by rw [HdrState.period, hcyccb]
  cycatr := by rw [hcyccb]
  now := hnow
  started := by rw [hcyccb]; exact id
  time := htime
  callback := Or.inl hcallback

theorem OthersRun.of_eq (h : w'.2.running = w.2.running) : OthersRun i w w' :=
  fun prid => Or.inl (congrFun h prid)

theorem CycSame.move (a : CycSame i w w') (h : w'.2.running = w.2.running) : CycMove i w w' :=
  Or.inl ⟨a, OthersRun.of_eq h⟩

theorem CycMove.of_eq (hcyccb : w'.2.cyccb i = w.2.cyccb i) (htime : w'.cycTime i = w.cycTime i)
    (hnow : w'.now = w.now) (hcallback : w'.1.callback (.cyctmeb i) = w.1.callback (.cyctmeb i))
    (hrun : w'.2.running = w.2.running) :
    CycMove i w w' := (CycSame.of_eq hcyccb htime hnow hcallback).move hrun

theorem CycMove.after (m : CycMove i w₁ w') (a : CycSame i w w₁) (h : w₁.2.running = w.2.running) :
    CycMove i w w' := by
  rcases m with ⟨b, hrun⟩ | c
  · refine Or.inl ⟨a.trans b, fun prid => ?_⟩
    rw [← h]
    exact hrun prid
  · refine Or.inr ⟨a.toCycBlock.trans c.toCycBlock, a.started c.started, ?_, ?_, c.callback, ?_⟩
    · rcases c.due with hc | hle
      · exact a.callback.imp hc.symm.trans And.right |>.imp Eq.symm id
      · exact Or.inr (by rwa [a.time, a.now] at hle)
    · rw [c.time]
      exact cycNextTime_congr a.time a.cyctim a.now
    · rw [← h]
      exact c.running

theorem CycMove.called_iff (m : CycMove i w w') :
    (∃ prid frame, frame.IsCyc i ∧ w'.2.running prid = frame :: w.2.running prid) ↔
    CycCall i w w' := by
  constructor
  · rintro ⟨prid, frame, hi, hrun⟩
    rcases m with ⟨-, hothers⟩ | c
    · rcases hothers prid with heq | ⟨frame', hi', heq⟩
      · rw [heq] at hrun
        exact absurd hrun (List.ne_cons_self)
      · rw [heq] at hrun
        exact absurd ((List.cons.inj hrun).1 ▸ hi) hi'
    · exact c
  · exact CycCall.running

/-! ## Routines -/

theorem enqueueTmeb_que (h : enqueueTmeb fuel s e = some s') : ∃ m, s' = { s with que := m } := by
  unfold enqueueTmeb at h
  obtain ⟨p, -, rfl⟩ := Option.map_eq_some_iff.mp h
  exact ⟨_, rfl⟩

theorem timerInsertAbs_que {cback : Option Cback} {arg : ℕ}
    (h : timerInsertAbs fuel s e tm cback arg = some s') :
    ∃ m, s' = { (s.setCallback e cback arg).setTime e tm with que := m } := enqueueTmeb_que h

theorem CycSame.insertOther {cback : Option Cback} {arg : ℕ} (he : e ≠ .cyctmeb i)
    (h : timerInsertAbs fuel w.1 e tm cback arg = some s') : CycSame i w (s', w.2) := by
  obtain ⟨m, rfl⟩ := timerInsertAbs_que h
  exact CycSame.of_eq rfl (Function.update_of_ne he.symm _ _) rfl
    (Function.update_of_ne he.symm _ _)

theorem cycTimerInsert_some (h : cycTimerInsert fuel j tm w = some w') :
    ∃ s', timerInsertAbs fuel w.1 (.cyctmeb j) tm (some .distributeCychdr) j = some s' ∧
      w' = (s', w.2) := by
  obtain ⟨s', hs, rfl⟩ := Option.map_eq_some_iff.mp h
  exact ⟨s', hs, rfl⟩

theorem cycTimerInsert_self (h : cycTimerInsert fuel i tm w = some w') :
    w'.2 = w.2 ∧ w'.now = w.now ∧ w'.cycTime i = tm ∧
      w'.1.callback (.cyctmeb i) = some .distributeCychdr := by
  obtain ⟨s', hs, rfl⟩ := cycTimerInsert_some h
  obtain ⟨m, rfl⟩ := timerInsertAbs_que hs
  exact ⟨rfl, rfl, Function.update_self .., Function.update_self ..⟩

theorem cyctmeb_ne (hj : j ≠ i) : Tmeb.cyctmeb j ≠ .cyctmeb i := fun hc => hj (Tmeb.cyctmeb.inj hc)

theorem CycSame.setCyccb {cyccb : Cyccb} (hj : j ≠ i) : CycSame i (s, h) (s, h.setCyccb j cyccb) :=
  CycSame.of_eq (Function.update_of_ne hj.symm _ _) rfl rfl rfl

theorem CycSame.setAlmcb {almcb : Almcb} : CycSame i (s, h) (s, h.setAlmcb j almcb) :=
  CycSame.of_eq rfl rfl rfl rfl

theorem CycSame.setCycstat {stat : BitVec 32}
    (hstat : stat.getLsbD 0 = true → (h.cyccb j).cycstat.getLsbD 0 = true) :
    CycSame i (s, h) (s, h.setCyccb j { h.cyccb j with cycstat := stat }) := by
  by_cases hj : j = i
  · subst hj
    have hself : (h.setCyccb j { h.cyccb j with cycstat := stat }).cyccb j =
        { h.cyccb j with cycstat := stat } :=
      setCyccb_cyccb_self
    refine ⟨⟨by rw [hself], by rw [HdrState.period, hself], by rw [hself], rfl⟩, ?_, rfl,
      Or.inl rfl⟩
    rw [hself]
    exact fun hs => ⟨hs.1, (sta_iff _).mpr (hstat ((sta_iff _).mp hs.2))⟩
  · exact CycSame.setCyccb hj

theorem leave_others (hrun : h.running = w.2.running) (hframe : ¬frame.IsCyc i) :
    OthersRun i w (s, h.leave prid frame) := by
  intro p
  rw [← hrun]
  by_cases hp : p = prid
  · subst hp
    exact Or.inr ⟨frame, hframe, Function.update_self ..⟩
  · exact Or.inl (Function.update_of_ne hp _ _)

theorem callOther (hj : j ≠ i) {stat : BitVec 32} (hframe : ¬frame.IsCyc i)
    (h : cycTimerInsert fuel j tm w = some w') :
    CycMove i w (w'.1, (w'.2.setCyccb j { w'.2.cyccb j with cycstat := stat }).leave prid
      frame) := by
  obtain ⟨s', hs, rfl⟩ := cycTimerInsert_some h
  have hset : CycSame i (s', w.2) (s', (w.2.setCyccb j { w.2.cyccb j with cycstat := stat }).leave
      prid frame) :=
    CycSame.of_eq (Function.update_of_ne hj.symm _ _) rfl rfl rfl
  exact Or.inl ⟨(CycSame.insertOther (cyctmeb_ne hj) hs).trans hset, leave_others rfl hframe⟩

theorem callSelf {stat : BitVec 32} (hframe : frame.IsCyc i) (hstarted : (w.2.cyccb i).Started)
    (hdue : w.1.callback (.cyctmeb i) = some .callCychdr ∨ w.cycTime i ≤ w.now)
    (h : cycTimerInsert fuel i (cycNextTime i w) w = some w') :
    CycCall i w (w'.1, (w'.2.setCyccb i { w'.2.cyccb i with cycstat := stat }).leave prid
      frame) := by
  obtain ⟨hh, hnow, htime, hcallback⟩ := cycTimerInsert_self h
  rw [hh]
  have hself : ((w.2.setCyccb i { w.2.cyccb i with cycstat := stat }).leave prid frame).cyccb i =
      { w.2.cyccb i with cycstat := stat } := setCyccb_cyccb_self
  refine ⟨⟨by rw [hself], by rw [HdrState.period, hself], by rw [hself], hnow⟩, hstarted, hdue,
    htime, hcallback, prid, frame, hframe, Function.update_self ..⟩

/-! ## Handler queues -/

/-- What the queues say of the events in them. -/
structure EventsRight (maxProc : ℕ) (w : HdrState) (q : TimerQue → List Tmeb) : Prop where
  rings : EventRings maxProc w.1.que q
  called : ∀ g e, e ∈ q g → Called w.1 g e
  started : ∀ g i, .cyctmeb i ∈ q g → (w.2.cyccb i).Started

theorem HdrInv.eventsRight {X : ℕ → Prop} (inv : HdrInv maxProc X w q) : EventsRight maxProc w q :=
  ⟨inv.rings, inv.called, fun g _ hi => ((inv.on _).mp ⟨g, hi⟩).1⟩

/-- The first handler of the queue is called. -/
theorem handlerExecution_move (r : EventsRight maxProc w q) (hprid : prid < maxProc)
    (h : handlerExecution fuel prid w = some w') : CycMove i w w' := by
  have hnext : (w.1.que (.que (.hdrque prid))).next = ((q (.hdrque prid)).map .tmeb).headD
      (.que (.hdrque prid)) :=
    r.rings.next_head (h := .hdrque prid) hprid
  unfold handlerExecution at h
  cases hq : q (.hdrque prid) with
  | nil =>
    rw [hnext, hq] at h
    obtain rfl := Option.some.inj h
    exact CycMove.of_eq rfl rfl rfl rfl rfl
  | cons e rest =>
    have he : e ∈ q (.hdrque prid) := by
      rw [hq]
      exact List.mem_cons_self
    obtain ⟨hcallback, hsome, harg⟩ := r.called _ e he
    rw [hnext, hq, List.map_cons, List.headD_cons] at h
    dsimp only at h
    rw [hcallback, harg] at h
    have hremove : CycSame i w ({ w.1 with que := queRemove (.tmeb e) w.1.que }, w.2) :=
      CycSame.of_eq rfl rfl rfl rfl
    cases e with
    | wtmeb t => exact absurd rfl hsome
    | cyctmeb j =>
      obtain ⟨w₁, hw₁, rfl⟩ := Option.map_eq_some_iff.mp h
      refine CycMove.after ?_ hremove rfl
      by_cases hj : j = i
      · subst hj
        exact Or.inr (callSelf (show HdrFrame.IsCyc j (.cychdr j _) from rfl) (r.started _ j he)
          (Or.inl hcallback) hw₁)
      · exact callOther hj (show ¬HdrFrame.IsCyc i (.cychdr j _) from hj) hw₁
    | almtmeb j =>
      obtain rfl := Option.some.inj h
      exact Or.inl ⟨CycSame.of_eq rfl rfl rfl rfl, leave_others rfl id⟩

theorem handlerUpdate_move {assprc : BitVec 32} (r : EventsRight maxProc w q)
    (hprid : prid < maxProc) (h : handlerUpdate fuel prid assprc w = some w') : CycMove i w w' := by
  unfold handlerUpdate at h
  split at h
  · dsimp only at h
    have hrequest : CycSame i w (w.1, (handlerRequest prid assprc w.2).2) :=
      CycSame.of_eq rfl rfl rfl rfl
    have r' : EventsRight maxProc (w.1, (handlerRequest prid assprc w.2).2) q :=
      ⟨r.rings, r.called, r.started⟩
    split at h
    · exact (handlerExecution_move r' hprid h).after hrequest rfl
    · obtain rfl := Option.some.inj h
      exact hrequest.move rfl
  · obtain rfl := Option.some.inj h
    exact CycMove.of_eq rfl rfl rfl rfl rfl

theorem checkUpdate_move (r : EventsRight maxProc w q) (hprid : prid < maxProc)
    (h : handlerUpdate fuel prid (checkHandlerQueue maxProc w.1).1
      ((checkHandlerQueue maxProc w.1).2, w.2) = some w') :
    CycMove i w w' := by
  obtain ⟨hq, hs, -⟩ := checkHandlerQueue_checked maxProc w.1
  rw [hs] at h
  have r' : EventsRight maxProc ({ w.1 with handler_queue := hq }, w.2) q :=
    ⟨r.rings, fun g e he => (r.called g e he).congr rfl rfl, r.started⟩
  exact (handlerUpdate_move r' hprid h).after (CycSame.of_eq rfl rfl rfl rfl) rfl

/-! ## The timer interrupt -/

theorem CycSame.distributeCychdr (h : j = i → w.cycTime i ≤ w.now) :
    CycSame i w (distributeCychdr prid j w) := by
  by_cases hj : j = i
  · subst hj
    exact ⟨⟨rfl, rfl, rfl, rfl⟩, id, rfl, Or.inr ⟨Function.update_self .., h rfl⟩⟩
  · exact CycSame.of_eq rfl rfl rfl (Function.update_of_ne (cyctmeb_ne hj).symm _ _)

theorem CycSame.distributeAlmhdr : CycSame i w (distributeAlmhdr prid j w) :=
  CycSame.of_eq rfl rfl rfl
    (Function.update_of_ne (show Tmeb.cyctmeb i ≠ .almtmeb j from Tmeb.noConfusion)
      (some .callAlmhdr) w.1.callback)

theorem startEvent_same {X : ℕ → Prop} (inv : HdrInv maxProc X w q) (he : e ∈ q .timerQueue)
    (hdue : e = .cyctmeb i → w.cycTime i ≤ w.now)
    (h : startEvent (timerCback prid) e (timerDelete w.1 e, w.2) = some w') :
    CycSame i w w' ∧ w'.2.running = w.2.running := by
  obtain ⟨hcallback, -, harg⟩ := inv.called _ e he
  have hremove : CycSame i w (timerDelete w.1 e, w.2) := CycSame.of_eq rfl rfl rfl rfl
  unfold startEvent at h
  rw [show (timerDelete w.1 e).callback e = e.cback .timerQueue from hcallback,
    show (timerDelete w.1 e).arg e = e.index from harg] at h
  cases e with
  | wtmeb t =>
    obtain rfl := Option.some.inj h
    exact ⟨CycSame.of_eq rfl rfl rfl rfl, rfl⟩
  | cyctmeb j =>
    obtain rfl := Option.some.inj h
    exact ⟨hremove.trans (CycSame.distributeCychdr fun hj => hdue (congrArg Tmeb.cyctmeb hj)), rfl⟩
  | almtmeb j =>
    obtain rfl := Option.some.inj h
    exact ⟨hremove.trans CycSame.distributeAlmhdr, rfl⟩

/-- The loop of the timer handler, by induction on its turns. -/
theorem expire_same {X : ℕ → Prop} (hprid : prid < maxProc) :
    ∀ {fuel : ℕ} {w w' : HdrState} {q : TimerQue → List Tmeb}, HdrInv maxProc X w q →
    InClock w.now → (w.HasCyc i → InClock (w.cycTime i)) →
    expire (startEvent (timerCback prid)) fuel w = some w' →
    CycSame i w w' ∧ w'.2.running = w.2.running ∧ ∃ q', HdrInv maxProc X w' q' := by
  intro fuel
  induction fuel with
  | zero =>
    intro w w' q _ _ _ h
    cases h
  | succ fuel ih =>
    intro w w' q inv hnow hin h
    have hnext : (w.1.que (.que .timerQueue)).next = ((q .timerQueue).map .tmeb).headD
        (.que .timerQueue) :=
      inv.rings.next_head (h := .timerQueue) trivial
    unfold expire at h
    cases hq : q .timerQueue with
    | nil =>
      rw [hnext, hq] at h
      obtain rfl := Option.some.inj h
      exact ⟨CycSame.of_eq rfl rfl rfl rfl, rfl, q, inv⟩
    | cons e rest =>
      rw [hnext, hq, List.map_cons, List.headD_cons] at h
      dsimp only at h
      split at h
      · obtain rfl := Option.some.inj h
        exact ⟨CycSame.of_eq rfl rfl rfl rfl, rfl, q, inv⟩
      · rename_i hlater
        have he : e ∈ q .timerQueue := by
          rw [hq]
          exact List.mem_cons_self
        obtain ⟨w₁, q₁, hstart, inv₁, -⟩ := inv.timerCback hprid he
        change (startEvent (timerCback prid) e (timerDelete w.1 e, w.2)).bind _ = some w' at h
        rw [hstart, Option.bind_some] at h
        have hdue (hei : e = .cyctmeb i) : w.cycTime i ≤ w.now := by
          subst hei
          have hhas : w.HasCyc i := (inv.eventsRight.started _ i he).1
          rw [llCmp_eq (hin hhas) hnow] at hlater
          omega
        obtain ⟨hsame, hrun⟩ := startEvent_same inv he hdue hstart
        have hin₁ (hhas : HdrState.HasCyc w₁ i) : InClock (HdrState.cycTime w₁ i) := by
          rw [hsame.time]
          exact hin fun hc => hhas (hsame.cychdr.trans hc)
        obtain ⟨hsame', hrun', hinv⟩ := ih inv₁ (hsame.now ▸ hnow) hin₁ h
        exact ⟨hsame.trans hsame', hrun'.trans hrun, hinv⟩

end SmpTKernel
