import SmpTKernel.HandlerGridCalls

/-!
# The grid of a cyclic handler over a run

The time of a handler stays near the clock, so that the sums of the next startup time fit in their
words; from what one operation does to it, the times of its calls over a run are those of its grid.
-/

namespace SmpTKernel

open Fuel

variable {P maxProc numProc i : ℕ} {w w₁ w' : HdrState} {op : HdrOp} {tm : ℤ}

/-! ## The invariant -/

/-- The time of a handler is not far from the clock; of a pending one it is at most a tick ahead. -/
structure CycRight (P i : ℕ) (w : HdrState) : Prop where
  pos : 0 < w.period i
  lt : w.period i < 2 ^ 32
  nonneg : 0 ≤ w.cycTime i
  le : w.cycTime i ≤ w.now + 2 ^ 32 + P
  soon : (w.2.cyccb i).Started → w.1.callback (.cyctmeb i) = some .callCychdr →
    w.cycTime i ≤ w.now + P

structure CycInv (P maxProc : ℕ) (w : HdrState) : Prop where
  settled : Settled maxProc w
  nonneg : 0 ≤ w.now
  clock : w.ClockFits
  cyc : ∀ i, w.HasCyc i → CycRight P i w

theorem CycRight.inClock (r : CycRight P i w) (hP : P ≤ MAX_TIMER_PERIOD) (hclock : w.ClockFits) :
    InClock (w.cycTime i) := by
  have hP' : P ≤ 50 := hP
  have := r.le
  unfold HdrState.ClockFits at hclock
  exact ⟨r.nonneg, by omega⟩

/-- The next startup time of a handler that is not later than a tick after the clock. -/
theorem CycRight.next (r : CycRight P i w) (hP : P ≤ MAX_TIMER_PERIOD) (hnow : 0 ≤ w.now)
    (hclock : w.ClockFits) (hdue : w.cycTime i ≤ w.now + P) :
    IsLeast (Grid.later (w.cycTime i) (w.period i) w.now) (cycNextTime i w) ∧
      cycNextTime i w ≤ w.now + 2 ^ 32 + P := by
  have hP' : P ≤ 50 := hP
  have hlt := r.lt
  have hpos : (0 : ℤ) < w.period i := by exact_mod_cast r.pos
  obtain ⟨x, hx⟩ := Grid.exists_isLeast hpos (w.cycTime i) w.now
  have hle := Grid.le_of_isLeast hpos hx
  have hmax : max (w.cycTime i) w.now ≤ w.now + P := max_le hdue (by omega)
  have hfits : w.now + 2 ^ 33 ≤ 2 ^ 63 := hclock
  have hleast := cycNextTime_isLeast (r.inClock hP hclock) ⟨hnow, by omega⟩ r.pos ⟨x, hx.1, by
    omega⟩
  refine ⟨hleast, ?_⟩
  rw [hleast.unique hx]
  omega

/-- What is due is not later than a tick after the clock. -/
theorem CycRight.callDue (r : CycRight P i w) (c : CycCall i w w') : w.cycTime i ≤ w.now + P := by
  rcases c.due with hc | hle
  · exact r.soon c.started hc
  · omega

theorem CycRight.move (r : CycRight P i w) (hP : P ≤ MAX_TIMER_PERIOD) (hnow : 0 ≤ w.now)
    (hclock : w.ClockFits) (m : CycMove i w w') : CycRight P i w' := by
  rcases m with ⟨a, -⟩ | c
  · refine ⟨a.cyctim ▸ r.pos, a.cyctim ▸ r.lt, a.time ▸ r.nonneg, ?_, fun hs hc => ?_⟩
    · rw [a.time, a.now]
      exact r.le
    · rw [a.time, a.now]
      rcases a.callback with hb | ⟨-, hle⟩
      · exact r.soon (a.started hs) (hb.symm.trans hc)
      · omega
  · obtain ⟨hleast, hle⟩ := r.next hP hnow hclock (r.callDue c)
    have hlater := Grid.lt_of_mem (by exact_mod_cast r.pos) hleast.1
    have hnonneg := r.nonneg
    refine ⟨c.cyctim ▸ r.pos, c.cyctim ▸ r.lt, ?_, ?_, fun _ hc => ?_⟩
    · rw [c.time]
      omega
    · rw [c.time, c.now]
      exact hle
    · rw [c.callback] at hc
      exact Cback.noConfusion (Option.some.inj hc)

/-- The clock goes on, and nothing else of the handler changes. -/
theorem CycRight.before (r : CycRight P i w) (op : HdrOp) (hnow : w.now ≤ (op.before P w).now) :
    CycRight P i (op.before P w) := by
  have hle := r.le
  have hsoon := r.soon
  cases op with
  | tick prid =>
    change w.now ≤ llAdd w.now P at hnow
    refine ⟨r.pos, r.lt, r.nonneg, ?_, fun hs hc => ?_⟩
    · show w.cycTime i ≤ llAdd w.now P + 2 ^ 32 + P
      omega
    · show w.cycTime i ≤ llAdd w.now P + P
      have := hsoon hs hc
      omega
  | _ => exact ⟨r.pos, r.lt, r.nonneg, hle, hsoon⟩

theorem CycRight.set (r : CycRight P i w) (set : CycSet i tm w w') (hnonneg : 0 ≤ tm)
    (hle : tm ≤ w.now + 2 ^ 32 + P) :
    CycRight P i w' := by
  refine ⟨set.cyctim ▸ r.pos, set.cyctim ▸ r.lt, ?_, ?_, fun _ hc => ?_⟩
  · rw [set.time]
    exact hnonneg
  · rw [set.time, set.now]
    exact hle
  · rw [set.callback] at hc
    exact Cback.noConfusion (Option.some.inj hc)

theorem firstTime_eq (hP : P ≤ MAX_TIMER_PERIOD) (hnow : 0 ≤ w.now) (hclock : w.ClockFits) {n : ℕ}
    (hn : n < 2 ^ 32) :
    llAdd (llAdd w.now n) P = w.now + n + P := by
  have hP' : P ≤ 50 := hP
  have hfits : w.now + 2 ^ 33 ≤ 2 ^ 63 := hclock
  have hfirst : llAdd w.now n = w.now + n := longlong_eq (by omega) (by omega)
  rw [hfirst]
  exact longlong_eq (by omega) (by omega)

theorem llCmp_clock (hclock : w.ClockFits) (hnow : 0 ≤ w.now) (htime : InClock (w.cycTime i)) :
    llCmp (w.cycTime i) w.now ≤ 0 ↔ w.cycTime i ≤ w.now := by
  have hfits : w.now + 2 ^ 33 ≤ 2 ^ 63 := hclock
  rw [llCmp_eq htime ⟨hnow, by omega⟩]
  omega

theorem CycRight.startTime (r : CycRight P i w) (hP : P ≤ MAX_TIMER_PERIOD) (hnow : 0 ≤ w.now)
    (hclock : w.ClockFits) :
    0 ≤ startTime P i w ∧ startTime P i w ≤ w.now + 2 ^ 32 + P := by
  have hnn := r.nonneg
  have hle := r.le
  have hlt := r.lt
  unfold SmpTKernel.startTime
  rw [firstTime_eq hP hnow hclock hlt]
  split_ifs with hatr hlate
  · rw [llCmp_clock hclock hnow (r.inClock hP hclock)] at hlate
    obtain ⟨hleast, hbound⟩ := r.next hP hnow hclock (by omega)
    have hlater := Grid.lt_of_mem (by exact_mod_cast r.pos) hleast.1
    exact ⟨by omega, hbound⟩
  · exact ⟨hnn, hle⟩
  · exact ⟨by omega, by omega⟩

theorem CycNew.right {pk : Tccyc} (c : CycNew P i pk w w₁) (hP : P ≤ MAX_TIMER_PERIOD)
    (hnow : 0 ≤ w.now) (hclock : w.ClockFits) (htim : pk.cyctim < 2 ^ 32)
    (hphs : pk.cycphs < 2 ^ 32) :
    CycRight P i w₁ := by
  have htime : w₁.cycTime i = w.now + pk.cycphs + P :=
    c.time.trans (firstTime_eq hP hnow hclock hphs)
  refine ⟨c.cyctim ▸ c.pos, c.cyctim ▸ htim, by omega, ?_, fun hs hc => ?_⟩
  · rw [htime, c.now]
    omega
  · rw [htime, c.now, c.soon hs hc]
    simp

/-! ## Runs -/

theorem CycStep.now_eq (c : CycStep P i w w' op) : w'.now = (op.before P w).now := by
  cases c with
  | move m => exact m.elim (fun a => a.1.now) fun c => c.now
  | start set => exact set.now
  | delete now _ _ => exact now
  | create _ new m => exact (m.elim (fun a => a.1.now) fun c => c.now).trans new.now

theorem before_now (P : ℕ) (w : HdrState) (op : HdrOp) :
    (op.before P w).now = w.now ∨ (op.before P w).now = llAdd w.now P := by
  cases op with
  | tick prid => exact Or.inr rfl
  | _ => exact Or.inl rfl

theorem CycInv.before (inv : CycInv P maxProc w) (hP : P ≤ MAX_TIMER_PERIOD) (op : HdrOp) :
    InClock (llAdd w.now P) ∧ w.now ≤ (op.before P w).now := by
  have hP' : P ≤ 50 := hP
  have hfits : w.now + 2 ^ 33 ≤ 2 ^ 63 := inv.clock
  have hnonneg := inv.nonneg
  have hadd : llAdd w.now P = w.now + P := longlong_eq (by omega) (by omega)
  refine ⟨⟨by omega, by omega⟩, ?_⟩
  rcases before_now P w op with h | h <;> omega

theorem CycInv.cycStep (inv : CycInv P maxProc w) (hP : P ≤ MAX_TIMER_PERIOD)
    (hn : numProc ≤ maxProc) (hmax : maxProc ≤ 32) (hop : CycOp P maxProc numProc op w w') (i : ℕ) :
    CycStep P i w w' op := by
  obtain ⟨fuel, hfuel⟩ := hop.returns
  exact HdrOp.cycStep inv.settled hn hmax hop.legal (inv.before hP op).1
    (fun hi => (inv.cyc i hi).inClock hP inv.clock) (hfuel fuel (Nat.le_refl fuel))

/-- **One operation** keeps the times of the handlers near the clock. -/
theorem CycInv.step (inv : CycInv P maxProc w) (hP : P ≤ MAX_TIMER_PERIOD) (hn : numProc ≤ maxProc)
    (hmax : maxProc ≤ 32) (hop : CycOp P maxProc numProc op w w') : CycInv P maxProc w' := by
  have hle := (inv.before hP op).2
  have hnow := (inv.cycStep hP hn hmax hop 0).now_eq
  have hnonneg : 0 ≤ (op.before P w).now := inv.nonneg.trans hle
  have hclock : (op.before P w).ClockFits := by
    have hclock := hop.clock
    unfold HdrState.ClockFits at hclock ⊢
    rwa [hnow] at hclock
  refine ⟨?_, hnow ▸ hnonneg, hop.clock, fun i hi => ?_⟩
  · obtain ⟨v, hv, hset⟩ := inv.settled.exec P hn hmax hop.legal
    rwa [hop.returns.unique hv]
  · have hstep := inv.cycStep hP hn hmax hop i
    have hsized := hop.sized
    cases hstep with
    | move m =>
      have hhas : w.HasCyc i := by
        have hbefore : (op.before P w).2.cyccb = w.2.cyccb := by cases op <;> rfl
        have hcychdr : (w'.2.cyccb i).cychdr = ((op.before P w).2.cyccb i).cychdr :=
          m.elim (fun a => a.1.cychdr) fun c => c.cychdr
        rw [hbefore] at hcychdr
        exact fun hc => hi (hcychdr.trans hc)
      exact ((inv.cyc i hhas).before op hle).move hP hnonneg hclock m
    | start set =>
      have r := inv.cyc i fun hc => hi (set.cychdr.trans hc)
      obtain ⟨hnn, hbound⟩ := r.startTime hP inv.nonneg inv.clock
      exact r.set set hnn hbound
    | delete _ _ gone => exact absurd hi gone
    | @create prid pk w₁ free new m =>
      have r := new.right hP inv.nonneg inv.clock hsized.1 hsized.2
      have hclock₁ : w₁.ClockFits := by
        unfold HdrState.ClockFits
        rw [new.now]
        exact inv.clock
      exact r.move hP (new.now ▸ inv.nonneg) hclock₁ m

theorem handlerQueuesInit_now (n : ℕ) (s : Timer) :
    (handlerQueuesInit n s).current_time = s.current_time := by
  unfold handlerQueuesInit
  induction n with
  | zero => rfl
  | succ n ih =>
    rw [List.range_succ, List.foldl_append]
    exact ih

theorem CycRun.inv (hP : P ≤ MAX_TIMER_PERIOD) (hn : numProc ≤ maxProc) (hmax : maxProc ≤ 32)
    (run : CycRun P maxProc numProc w) : CycInv P maxProc w := by
  induction run with
  | boot numCycid numAlmid s h htcb =>
    have hnow : (HdrState.boot maxProc numCycid numAlmid s h).now = 0 := handlerQueuesInit_now _ _
    refine ⟨boot_settled numCycid numAlmid s h htcb, hnow.ge, ?_, fun i hi => absurd rfl hi⟩
    unfold HdrState.ClockFits
    rw [hnow]
    norm_num
  | step _ hop ih => exact ih.step hP hn hmax hop

/-! ## The grid of a handler -/

/-- From `w` on the handler `i` keeps to its grid. -/
structure GridKept (P maxProc numProc i : ℕ) (w : HdrState) : Prop where
  /-- A call sets the next time that is later than the clock. -/
  calls : ∀ op w', CycOp P maxProc numProc op w w' → CycCalled i op w w' →
    IsLeast (Grid.later (w.cycTime i) (w.period i) w'.now) (w'.cycTime i)
  /-- The times of its calls from now on, with the one that comes next. -/
  times : ∀ times w', CycTrail P maxProc numProc i w times w' →
    (times ++ [w'.cycTime i]).Pairwise (· < ·) ∧
      ∀ x ∈ times ++ [w'.cycTime i], x ≡ w.cycTime i [ZMOD w.period i]
  /-- The first time of a new grid. -/
  restarts : ∀ w', CycOp P maxProc numProc (.staCyc i true E_OK) w w' →
    (w.2.cyccb i).cycatr &&& TA_PHS = 0 → w'.cycTime i = w.now + w.period i + P
  /-- After a pause the handler goes on with its grid. -/
  resumes : ∀ w', CycOp P maxProc numProc (.staCyc i true E_OK) w w' →
    (w.2.cyccb i).cycatr &&& TA_PHS ≠ 0 → (w.2.cyccb i).cycstat &&& TCYC_STA = 0 →
    if w.now < w.cycTime i then w'.cycTime i = w.cycTime i
    else IsLeast (Grid.later (w.cycTime i) (w.period i) w.now) (w'.cycTime i)

/-- A new handler begins its grid a tick after its phase, or has been called for that time. -/
def GridBegun (P i : ℕ) (w w' : HdrState) (op : HdrOp) : Prop :=
  ∃ prid pk, op = .creCyc prid pk true E_OK ∧ w'.period i = pk.cyctim ∧
    (CycCalled i op w w' →
      IsLeast (Grid.later (w.now + pk.cycphs + P) pk.cyctim w'.now) (w'.cycTime i)) ∧
    (¬CycCalled i op w w' → w'.cycTime i = w.now + pk.cycphs + P)

theorem still_eq (op : HdrOp) (w : HdrState) (P : ℕ) : op.still w = (op.before P w).2.running := by
  cases op <;> rfl

theorem not_called (h : w'.2.running = op.still w) : ¬CycCalled i op w w' := by
  rintro ⟨prid, frame, -, hrun⟩
  rw [h] at hrun
  exact absurd hrun List.ne_cons_self

theorem CycMove.called (m : CycMove i (op.before P w) w') :
    CycCalled i op w w' ↔ CycCall i (op.before P w) w' := by
  rw [← m.called_iff, ← still_eq op w P]
  rfl

theorem before_block (P i : ℕ) (w : HdrState) (op : HdrOp) :
    (op.before P w).2.cyccb i = w.2.cyccb i ∧ (op.before P w).cycTime i = w.cycTime i := by
  cases op <;> exact ⟨rfl, rfl⟩

theorem CycInv.call (inv : CycInv P maxProc w) (hP : P ≤ MAX_TIMER_PERIOD) (hhas : w.HasCyc i)
    (hop : CycOp P maxProc numProc op w w') (c : CycCall i (op.before P w) w') :
    IsLeast (Grid.later (w.cycTime i) (w.period i) w'.now) (w'.cycTime i) := by
  obtain ⟨hblock, htime⟩ := before_block P i w op
  have hle := (inv.before hP op).2
  have hclock : (op.before P w).ClockFits := by
    have hclock := hop.clock
    unfold HdrState.ClockFits at hclock ⊢
    rwa [c.now] at hclock
  have r := (inv.cyc i hhas).before op hle
  have hleast := (r.next hP (inv.nonneg.trans hle) hclock (r.callDue c)).1
  rw [HdrState.period, hblock, htime] at hleast
  rw [c.time, c.now]
  exact hleast

theorem tkStaCyc_starts (hop : CycOp P maxProc numProc (.staCyc i true E_OK) w w')
    (hhas : w.HasCyc i)
    (hnew : (w.2.cyccb i).cycatr &&& TA_PHS ≠ 0 → (w.2.cyccb i).cycstat &&& TCYC_STA = 0) :
    CycSet i (startTime P i w) w w' := by
  obtain ⟨fuel, hfuel⟩ := hop.returns
  obtain ⟨r, hr, rfl⟩ := Option.map_eq_some_iff.mp (hfuel fuel (Nat.le_refl fuel))
  exact tkStaCyc_set hhas hnew hr

theorem CycInv.start (inv : CycInv P maxProc w) (hP : P ≤ MAX_TIMER_PERIOD) (hhas : w.HasCyc i)
    (hatr : (w.2.cyccb i).cycatr &&& TA_PHS ≠ 0) :
    if w.now < w.cycTime i then startTime P i w = w.cycTime i
    else IsLeast (Grid.later (w.cycTime i) (w.period i) w.now) (startTime P i w) := by
  have r := inv.cyc i hhas
  have hcmp := llCmp_clock inv.clock inv.nonneg (r.inClock hP inv.clock)
  unfold startTime
  rw [if_pos hatr]
  split_ifs with hlater hlate hlate
  · have := hcmp.mp hlate
    omega
  · rfl
  · exact (r.next hP inv.nonneg inv.clock (by have := hcmp.mp hlate; omega)).1
  · exact absurd (hcmp.mpr (Int.not_lt.mp hlater)) hlate

/-- **One step of a trail**: the handler keeps its block, and its time stays on the grid. -/
theorem CycInv.keeps (inv : CycInv P maxProc w) (hP : P ≤ MAX_TIMER_PERIOD) (hn : numProc ≤ maxProc)
    (hmax : maxProc ≤ 32) (hhas : w.HasCyc i) (hop : CycOp P maxProc numProc op w w')
    (hkeeps : op.KeepsGrid i w) :
    w'.HasCyc i ∧ w'.period i = w.period i ∧ w.cycTime i ≤ w'.cycTime i ∧
      w'.cycTime i ≡ w.cycTime i [ZMOD w.period i] ∧ (CycCalled i op w w' →
        w.cycTime i < w'.cycTime i) := by
  have hpos : (0 : ℤ) < w.period i := by exact_mod_cast (inv.cyc i hhas).pos
  obtain ⟨hblock, htime⟩ := before_block P i w op
  cases inv.cycStep hP hn hmax hop i with
  | move m =>
    have hb : CycBlock i (op.before P w) w' :=
      m.elim (fun a => a.1.toCycBlock) fun c => c.toCycBlock
    have hcychdr := hb.cychdr
    have hperiod := hb.cyctim
    rw [HdrState.period, HdrState.period, hblock] at hperiod
    rw [hblock] at hcychdr
    refine ⟨fun hc => hhas (hcychdr ▸ hc), hperiod, ?_⟩
    by_cases hcalled : CycCalled i op w w'
    · have hleast := inv.call hP hhas hop (m.called.mp hcalled)
      have hlt := Grid.lt_of_mem hpos hleast.1
      exact ⟨hlt.le, Grid.modEq_of_mem hleast.1, fun _ => hlt⟩
    · rcases m with ⟨a, -⟩ | c
      · have heq : w'.cycTime i = w.cycTime i := a.time.trans htime
        exact ⟨heq.ge, by rw [heq], fun hc => absurd hc hcalled⟩
      · exact absurd ((CycMove.called (Or.inr c)).mpr c) hcalled
  | start set =>
    refine ⟨fun hc => hhas (set.cychdr ▸ hc), set.cyctim, ?_⟩
    have hstart := inv.start hP hhas (hkeeps.2 rfl)
    have hnot : ¬CycCalled i (.staCyc i true E_OK) w w' := not_called set.running
    rw [← set.time] at hstart
    split_ifs at hstart with hlater
    · exact ⟨hstart.ge, by rw [hstart], fun hc => absurd hc hnot⟩
    · exact ⟨(Grid.lt_of_mem hpos hstart.1).le, Grid.modEq_of_mem hstart.1, fun hc =>
        absurd hc hnot⟩
  | delete _ _ _ => exact absurd rfl hkeeps.1
  | create free _ _ => exact absurd hhas free

/-- **A trail**, by induction on its steps. -/
theorem CycTrail.times (hP : P ≤ MAX_TIMER_PERIOD) (hn : numProc ≤ maxProc) (hmax : maxProc ≤ 32)
    (inv : CycInv P maxProc w) (hhas : w.HasCyc i) {times : List ℤ}
    (trail : CycTrail P maxProc numProc i w times w') :
    CycInv P maxProc w' ∧ w'.HasCyc i ∧ w'.period i = w.period i ∧
      (times ++ [w'.cycTime i]).Pairwise (· < ·) ∧
      ∀ x ∈ times ++ [w'.cycTime i], x ≡ w.cycTime i [ZMOD w.period i] := by
  induction trail with
  | start => exact ⟨inv, hhas, rfl, List.pairwise_singleton _ _, fun x hx =>
      List.mem_singleton.mp hx ▸ Int.ModEq.refl _⟩
  | quiet trail hop hkeeps h ih =>
    obtain ⟨inv₁, hhas₁, hperiod₁, hsorted, hmod⟩ := ih
    obtain ⟨hhas', hperiod, hle, hmod', -⟩ := inv₁.keeps hP hn hmax hhas₁ hop hkeeps
    rw [List.pairwise_append] at hsorted ⊢
    refine ⟨inv₁.step hP hn hmax hop, hhas', hperiod.trans hperiod₁,
      ⟨hsorted.1, List.pairwise_singleton _ _, ?_⟩, ?_⟩
    · intro x hx y hy
      obtain rfl := List.mem_singleton.mp hy
      exact (hsorted.2.2 x hx _ (List.mem_singleton_self _)).trans_le hle
    · intro x hx
      rcases List.mem_append.mp hx with hx | hx
      · exact hmod x (List.mem_append_left _ hx)
      · obtain rfl := List.mem_singleton.mp hx
        exact (hperiod₁ ▸ hmod').trans
          (hmod _ (List.mem_append_right _ (List.mem_singleton_self _)))
  | called trail hop hkeeps h ih =>
    obtain ⟨inv₁, hhas₁, hperiod₁, hsorted, hmod⟩ := ih
    obtain ⟨hhas', hperiod, -, hmod', hlt⟩ := inv₁.keeps hP hn hmax hhas₁ hop hkeeps
    refine ⟨inv₁.step hP hn hmax hop, hhas', hperiod.trans hperiod₁, ?_, ?_⟩
    · rw [List.pairwise_append]
      refine ⟨hsorted, List.pairwise_singleton _ _, fun x hx y hy => ?_⟩
      obtain rfl := List.mem_singleton.mp hy
      rcases List.mem_append.mp hx with hx' | hx'
      · exact ((List.pairwise_append.mp hsorted).2.2 x hx' _ (List.mem_singleton_self _)).trans
          (hlt h)
      · exact List.mem_singleton.mp hx' ▸ hlt h
    · intro x hx
      rcases List.mem_append.mp hx with hx | hx
      · exact hmod x hx
      · obtain rfl := List.mem_singleton.mp hx
        exact (hperiod₁ ▸ hmod').trans
          (hmod _ (List.mem_append_right _ (List.mem_singleton_self _)))

theorem CycInv.gridKept (inv : CycInv P maxProc w) (hP : P ≤ MAX_TIMER_PERIOD)
    (hn : numProc ≤ maxProc) (hmax : maxProc ≤ 32) (hhas : w.HasCyc i) :
    GridKept P maxProc numProc i w where
  calls op w' hop hcalled := by
    have hstep := inv.cycStep hP hn hmax hop i
    cases hstep with
    | move m => exact inv.call hP hhas hop (m.called.mp hcalled)
    | start set => exact absurd hcalled (not_called set.running)
    | delete _ hrunning _ => exact absurd hcalled (not_called hrunning)
    | create free _ _ => exact absurd hhas free
  times times w' trail := (trail.times hP hn hmax inv hhas).2.2.2
  restarts w' hop hatr := by
    have set := tkStaCyc_starts hop hhas fun hc => absurd hatr hc
    rw [set.time]
    unfold startTime
    rw [if_neg (not_not.mpr hatr)]
    exact firstTime_eq hP inv.nonneg inv.clock (inv.cyc i hhas).lt
  resumes w' hop hatr hstopped := by
    have set := tkStaCyc_starts hop hhas fun _ => hstopped
    rw [set.time]
    exact inv.start hP hhas hatr

/-- A new handler. -/
theorem CycInv.gridBegun (inv : CycInv P maxProc w) (hP : P ≤ MAX_TIMER_PERIOD)
    (hn : numProc ≤ maxProc) (hmax : maxProc ≤ 32) (hfree : ¬w.HasCyc i)
    (hop : CycOp P maxProc numProc op w w') (hhas : w'.HasCyc i) :
    GridBegun P i w w' op := by
  have hsized := hop.sized
  cases inv.cycStep hP hn hmax hop i with
  | move m =>
    have hcychdr : (w'.2.cyccb i).cychdr = ((op.before P w).2.cyccb i).cychdr :=
      m.elim (fun a => a.1.cychdr) fun c => c.cychdr
    rw [(before_block P i w op).1] at hcychdr
    exact absurd (fun hc => hhas (hcychdr.trans hc)) hfree
  | start set => exact absurd (fun hc => hhas (set.cychdr.trans hc)) hfree
  | delete _ _ gone => exact absurd hhas gone
  | @create prid pk w₁ free new m =>
    have r := new.right hP inv.nonneg inv.clock hsized.1 hsized.2
    have hclock₁ : w₁.ClockFits := by
      unfold HdrState.ClockFits
      rw [new.now]
      exact inv.clock
    have htime : w₁.cycTime i = w.now + pk.cycphs + P :=
      new.time.trans (firstTime_eq hP inv.nonneg inv.clock hsized.2)
    have hcalled : CycCalled i (.creCyc prid pk true E_OK) w w' ↔ CycCall i w₁ w' := by
      rw [← m.called_iff, new.running]
      rfl
    refine ⟨prid, pk, rfl, ?_, fun hc => ?_, fun hc => ?_⟩
    · exact (m.elim (fun a => a.1.cyctim) fun c => c.cyctim).trans new.cyctim
    · have c := hcalled.mp hc
      have hleast := (r.next hP (new.now ▸ inv.nonneg) hclock₁ (r.callDue c)).1
      rw [htime, new.cyctim, ← c.time, ← c.now] at hleast
      exact hleast
    · rcases m with ⟨a, -⟩ | c
      · exact a.time.trans htime
      · exact absurd (hcalled.mpr c) hc

/-- **Cyclic handlers do not drift.** The next startup time is the least time of the grid that is
later than the clock, and in every run, while times stay within the 64 bits of the clock, the times
that a handler is called for increase strictly and are those of the grid that it got when it was
created or started; one with `TA_PHS` goes on with its grid after a pause. -/
theorem cycHandlers_keepGrid (hP : P ≤ MAX_TIMER_PERIOD) (hn : numProc ≤ maxProc)
    (hmax : maxProc ≤ 32) :
    (∀ (w : HdrState) (i : ℕ), InClock (w.cycTime i) → InClock w.now → 0 < w.period i →
      (∃ x ∈ Grid.later (w.cycTime i) (w.period i) w.now, x < 2 ^ 63) →
      IsLeast (Grid.later (w.cycTime i) (w.period i) w.now) (cycNextTime i w)) ∧
    ∀ w, CycRun P maxProc numProc w → ∀ i, (w.HasCyc i → GridKept P maxProc numProc i w) ∧
      (¬w.HasCyc i → ∀ op w', CycOp P maxProc numProc op w w' → w'.HasCyc i →
        GridBegun P i w w' op) := by
  refine ⟨fun w i htime hnow hp hfits => cycNextTime_isLeast htime hnow hp hfits, fun w run i => ?_⟩
  have inv := run.inv hP hn hmax
  exact ⟨inv.gridKept hP hn hmax, fun hfree op w' hop hhas =>
    inv.gridBegun hP hn hmax hfree hop hhas⟩

/-- At the end of the 64 bits of the clock there is no later time: the sum wraps around, and what
comes out lies in the past. -/
theorem cycNextTime_wraps : ¬∀ (w : HdrState) (i : ℕ), InClock (w.cycTime i) → InClock w.now →
    0 < w.period i →
    IsLeast (Grid.later (w.cycTime i) (w.period i) w.now) (cycNextTime i w) := by
  intro hall
  let s₀ : Timer := ⟨2 ^ 63 - 1, fun x => ⟨x, x⟩, fun _ => 2 ^ 63 - 1, fun _ => none, fun _ =>
    0, fun _ => ⟨false, false⟩⟩
  let h₀ : Hdrs := ⟨fun _ => ⟨.ready, false⟩, fun _ => ⟨0, 0, 8, 0, 1, 0, 0⟩, [], fun _ =>
    ⟨0, 0, 0, 0, 0, 0⟩, [], fun _ => [], fun _ => false⟩
  have hclock : InClock (2 ^ 63 - 1) := ⟨by norm_num, by norm_num⟩
  obtain ⟨⟨k, -, -, hlater⟩, -⟩ := hall (s₀, h₀) 0 hclock hclock Nat.one_pos
  have hnext : cycNextTime 0 (s₀, h₀) = -2 ^ 63 := by decide +kernel
  rw [hnext] at hlater
  change (2 ^ 63 - 1 : ℤ) < -2 ^ 63 at hlater
  omega

/-- A handler with a period of 20 ms is created on a board that ticks every 10 ms and called at
once, for the time 10: it comes next at the time 30. -/
theorem cycHandlers_keepGrid_created :
    ∃ w : HdrState, w.HasCyc 0 ∧ w.cycTime 0 = 30 ∧ GridKept 10 4 2 0 w := by
  let s₀ : Timer :=
    ⟨0, fun x => ⟨x, x⟩, fun _ => 0, fun _ => none, fun _ => 0, fun _ => ⟨false, false⟩⟩
  let h₀ : Hdrs := ⟨fun _ => ⟨.ready, false⟩, fun _ => ⟨0, 0, 0, 0, 0, 0, 0⟩, [], fun _ =>
    ⟨0, 0, 0, 0, 0, 0⟩, [], fun _ => [], fun _ => false⟩
  let w₀ := HdrState.boot 4 1 1 s₀ h₀
  let op : HdrOp := .creCyc 0 ⟨7, TA_STA, 8, 20, 0, 0, 1⟩ true E_OK
  let w₁ : HdrState := (op.exec 10 4 2 1 w₀).getD w₀
  have run₀ : CycRun 10 4 2 w₀ := .boot 1 1 s₀ h₀ fun t hc => by simp [WaitTcb.Waits, h₀] at hc
  have hret : Returns (fun fuel => op.exec 10 4 2 fuel w₀) w₁ := by
    refine ⟨1, fun fuel hf => ?_⟩
    obtain ⟨k, rfl⟩ := Nat.exists_eq_add_of_le' hf
    subst op w₁ w₀ s₀ h₀
    with_unfolding_all rfl
  have run₁ : CycRun 10 4 2 w₁ := by
    refine .step run₀ ⟨show op.Legal 2 w₀ from Nat.two_pos, ⟨by decide, by decide⟩, hret, ?_⟩
    show w₁.now + 2 ^ 33 ≤ 2 ^ 63
    decide +kernel
  have hhas : w₁.HasCyc 0 := by
    show (w₁.2.cyccb 0).cychdr ≠ 0
    decide +kernel
  exact ⟨w₁, hhas, by decide +kernel, ((cycHandlers_keepGrid (by decide) (by omega) (by omega)).2 w₁
    run₁ 0).1 hhas⟩

end SmpTKernel
