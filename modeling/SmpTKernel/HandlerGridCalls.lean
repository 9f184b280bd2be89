import SmpTKernel.HandlerGrid

/-!
# What operations do to the time of a cyclic handler

Each operation calls a handler at most once, and sets its time only when it is called, created or
started.
-/

namespace SmpTKernel

open LinkRing Fuel

/-- The clock has been advanced, or the handler that returns has left its processor. -/
def HdrOp.before (TIMER_PERIOD : ℕ) (w : HdrState) : HdrOp → HdrState
  | tick _ => ({ w.1 with current_time := llAdd w.1.current_time TIMER_PERIOD }, w.2)
  | resume prid =>
    (w.1, { w.2 with running := Function.update w.2.running prid (w.2.running prid).tail })
  | _ => w

/-- The time of a handler is set by a start. -/
structure CycSet (i : ℕ) (tm : ℤ) (w w' : HdrState) : Prop extends CycBlock i w w' where
  time : w'.cycTime i = tm
  callback : w'.1.callback (.cyctmeb i) = some .distributeCychdr
  running : w'.2.running = w.2.running

/-- A new handler, before what may be its first call. -/
structure CycNew (P i : ℕ) (pk : Tccyc) (w w' : HdrState) : Prop where
  cychdr : w'.HasCyc i
  pos : 0 < pk.cyctim
  cyctim : w'.period i = pk.cyctim
  time : w'.cycTime i = llAdd (llAdd w.now pk.cycphs) P
  now : w'.now = w.now
  soon : (w'.2.cyccb i).Started → w'.1.callback (.cyctmeb i) = some .callCychdr → pk.cycphs = 0
  running : w'.2.running = w.2.running

/-- The time that a start sets. -/
def startTime (P i : ℕ) (w : HdrState) : ℤ :=
  if (w.2.cyccb i).cycatr &&& TA_PHS ≠ 0 then
    if llCmp (w.cycTime i) w.now ≤ 0 then cycNextTime i w else w.cycTime i
  else llAdd (llAdd w.now (w.period i)) P

/-- What an operation does to the handler `i`. -/
inductive CycStep (P i : ℕ) (w w' : HdrState) : HdrOp → Prop
  | move {op : HdrOp} (m : CycMove i (op.before P w) w') : CycStep P i w w' op
  | start (set : CycSet i (startTime P i w) w w') : CycStep P i w w' (.staCyc i true E_OK)
  | delete (now : w'.now = w.now) (running : w'.2.running = w.2.running) (gone : ¬w'.HasCyc i) :
      CycStep P i w w' (.delCyc i true E_OK)
  | create {prid : ℕ} {pk : Tccyc} {w₁ : HdrState} (free : ¬w.HasCyc i) (new : CycNew P i pk w w₁)
      (m : CycMove i w₁ w') : CycStep P i w w' (.creCyc prid pk true E_OK)

variable {P maxProc numProc prid fuel i j : ℕ} {s s' : Timer} {h : Hdrs} {w w₁ w' : HdrState}
  {X : ℕ → Prop} {q q' : TimerQue → List Tmeb} {e : Tmeb} {op : HdrOp} {tm : ℤ} {idOk : Bool}
  {prot : ER}

theorem CycMove.refl : CycMove i w w := CycMove.of_eq rfl rfl rfl rfl rfl

/-! ## Calls for cyclic handlers -/

theorem timerInsertAbs_setCallback {cback cback' : Option Cback} {arg arg' : ℕ} :
    timerInsertAbs fuel (s.setCallback e cback' arg') e tm cback arg = timerInsertAbs fuel s e tm
      cback arg := by
  unfold timerInsertAbs Timer.setCallback
  simp only [Function.update_idem]

/-- The immediate call of a new handler, which is pending then. -/
theorem immediateCallCychdr_move (inv : HdrInv maxProc (fun _ => False) w q)
    (hprid : prid < maxProc) (m : Moves maxProc (.cyctmeb j) none w.1 q s q')
    (hs : s.handler_queue = w.1.handler_queue)
    (hmark : ∀ x, x ≠ .cyctmeb j → (h.Marked x ↔ w.2.Marked x)) (hstarted : (h.cyccb j).Started)
    (hrequest : h.request = w.2.request) (hrunning : h.running = w.2.running)
    (hblocks : BlocksRight maxProc h)
    (hcall : immediateCallCychdr maxProc fuel prid j (s, h) = some w') :
    CycMove i (s.setCallback (.cyctmeb j) (some .callCychdr) j, h) w' := by
  unfold immediateCallCychdr at hcall
  split at hcall
  · obtain ⟨q'', inv', -⟩ :=
      inv.distributeCychdr hprid m hs hmark hstarted hrequest hrunning hblocks
    exact (checkUpdate_move inv'.eventsRight hprid hcall).after (CycSame.of_eq rfl rfl rfl rfl) rfl
  · obtain ⟨w₁, hw₁, rfl⟩ := Option.map_eq_some_iff.mp hcall
    have hinsert : cycTimerInsert fuel j (cycNextTime j (s, h))
        (s.setCallback (.cyctmeb j) (some .callCychdr) j, h) = some w₁ := by
      rw [← hw₁]
      unfold cycTimerInsert
      rw [timerInsertAbs_setCallback]
    by_cases hj : j = i
    · subst hj
      exact Or.inr (callSelf (show HdrFrame.IsCyc j (.immCychdr j _) from rfl) hstarted
        (Or.inl (Function.update_self ..)) hinsert)
    · exact callOther hj (show ¬HdrFrame.IsCyc i (.immCychdr j _) from hj) hinsert

theorem CycStep.same (P i : ℕ) (w : HdrState) {op : HdrOp} (hop : op.before P w = w) :
    CycStep P i w w op :=
  .move (hop.symm ▸ CycMove.refl)

/-- A call for a new handler is refused, or it takes the first free control block. -/
theorem tkCreCyc_cases {pk : Tccyc} {rsatrOk : Bool} {r : HdrResult}
    (hcall : tkCreCyc P maxProc numProc fuel prid pk rsatrOk prot w = some r) :
    r.1 = w ∨ rsatrOk = true ∧ prot = E_OK ∧ pk.cychdr ≠ 0 ∧ pk.cyctim > 0 ∧
      ¬(pk.cycatr &&& TA_ASSPRC ≠ 0 ∧ !chkAssprc numProc pk.assprc) ∧
        ∃ j free, w.2.free_cyccb = j :: free ∧
        (if pk.cycatr &&& TA_STA ≠ 0 then
          if pk.cycphs = 0 then immediateCallCychdr maxProc fuel prid j
            (w.1.setTime (.cyctmeb j) (llAdd (llAdd w.1.current_time pk.cycphs) P), w.2.newCyc
              pk j free)
          else cycTimerInsert fuel j (llAdd (llAdd w.1.current_time pk.cycphs) P)
            (w.1, w.2.newCyc pk j free)
        else some (w.1.setTime (.cyctmeb j) (llAdd (llAdd w.1.current_time pk.cycphs) P), w.2.newCyc
          pk j free)) =
          some r.1 := by
  have hrefused {a : ER} (hv : some (w, a) = some r) : r.1 = w := by
    rw [← Option.some.inj hv]
  unfold tkCreCyc at hcall
  split at hcall
  · exact .inl (hrefused hcall)
  rename_i hrsatr
  split at hcall
  · exact .inl (hrefused hcall)
  rename_i hhdr
  split at hcall
  · exact .inl (hrefused hcall)
  rename_i htim
  split at hcall
  · exact .inl (hrefused hcall)
  rename_i hchk
  split at hcall
  · exact .inl (hrefused hcall)
  rename_i hprot
  cases hfree : w.2.free_cyccb with
  | nil =>
    rw [hfree] at hcall
    exact .inl (hrefused hcall)
  | cons j free =>
    rw [hfree] at hcall
    obtain ⟨w', hw', rfl⟩ := Option.map_eq_some_iff.mp hcall
    exact .inr ⟨by simpa using hrsatr, not_not.mp hprot, hhdr, not_not.mp htim, hchk, j,
      free, rfl, hw'⟩

/-- The new handler is `i` itself, or `i` does not notice. -/
theorem CycStep.created (inv : HdrInv maxProc (fun _ => False) w q) {pk : Tccyc} {free : List ℕ}
    (hfree : w.2.free_cyccb = j :: free) (hhdr : pk.cychdr ≠ 0) (htim : pk.cyctim > 0)
    (htime : s.time (.cyctmeb j) = llAdd (llAdd w.1.current_time pk.cycphs) P)
    (hnow : s.current_time = w.now)
    (hsoon : pk.cycatr &&& TA_STA ≠ 0 → s.callback (.cyctmeb j) = some .callCychdr → pk.cycphs = 0)
    (hothers : ∀ e, e ≠ .cyctmeb j → s.time e = w.1.time e ∧ s.callback e = w.1.callback e)
    (m : CycMove i (s, w.2.newCyc pk j free) w') :
    CycStep P i w w' (.creCyc prid pk true E_OK) := by
  have hself : (w.2.newCyc pk j free).cyccb j = pk.cyccb (w.2.cyccb j) := setCyccb_cyccb_self
  by_cases hj : j = i
  · subst hj
    refine .create (fun hc => hc (inv.blocks.cycFree j (hfree ▸ List.mem_cons_self))) ?_ m
    refine ⟨?_, by omega, ?_, htime, hnow, ?_, rfl⟩
    · show ((w.2.newCyc pk j free).cyccb j).cychdr ≠ 0
      rw [hself]
      exact hhdr
    · show ((w.2.newCyc pk j free).cyccb j).cyctim = pk.cyctim
      rw [hself]
      rfl
    · show ((w.2.newCyc pk j free).cyccb j).Started → _
      rw [hself, Tccyc.started_cyccb hhdr]
      exact hsoon
  · -- the block of another handler is not written
    obtain ⟨htime', hcallback⟩ := hothers _ (cyctmeb_ne hj).symm
    exact .move (m.after (CycSame.of_eq (Function.update_of_ne (Ne.symm hj) _ _) htime' hnow
      hcallback) rfl)

theorem tkCreCyc_step (inv : HdrInv maxProc (fun _ => False) w q) (hprid : prid < maxProc)
    (hn : numProc ≤ maxProc) (hmax : maxProc ≤ 32) {pk : Tccyc} {rsatrOk : Bool} {r : HdrResult}
    (hcall : tkCreCyc P maxProc numProc fuel prid pk rsatrOk prot w = some r) :
    CycStep P i w r.1 (.creCyc prid pk rsatrOk prot) := by
  obtain hsame | ⟨rfl, rfl, hhdr, htim, hchk, j, free, hfree, hcall⟩ := tkCreCyc_cases hcall
  · rw [hsame]
    exact CycStep.same P i w rfl
  have hset (e : Tmeb) (he : e ≠ .cyctmeb j) (tm : ℤ) : (w.1.setTime (.cyctmeb j) tm).time e =
      w.1.time e :=
    Function.update_of_ne he _ _
  have hself (tm : ℤ) : (w.1.setTime (.cyctmeb j) tm).time (.cyctmeb j) = tm :=
    Function.update_self ..
  split_ifs at hcall with hsta hphs
  · -- the first call is due at once
    have hout : ¬w.2.Marked (.cyctmeb j) :=
      fun hc => hc.1 (inv.blocks.cycFree j (hfree ▸ List.mem_cons_self))
    have hstarted : ((w.2.newCyc pk j free).cyccb j).Started := by
      rw [Hdrs.newCyc, setCyccb_cyccb_self]
      exact (Tccyc.started_cyccb hhdr).mpr hsta
    have m := immediateCallCychdr_move (i := i) inv hprid
      (Moves.stay inv.rings (inv.not_mem hout)
        (w.1.setTime (.cyctmeb j) (llAdd (llAdd w.1.current_time pk.cycphs) P)) rfl rfl rfl) rfl
      (fun _ => newCyc_marked) hstarted rfl rfl (inv.blocks.newCyc hfree hn hmax hchk) hcall
    refine CycStep.created inv hfree hhdr htim ?_ ?_ (fun _ _ => hphs) ?_ m
    · exact hself _
    · rfl
    · exact fun e he => ⟨hset e he _, Function.update_of_ne he _ _⟩
  · obtain ⟨s', hs, hr⟩ := cycTimerInsert_some hcall
    obtain ⟨m, rfl⟩ := timerInsertAbs_que hs
    rw [hr]
    refine CycStep.created inv hfree hhdr htim ?_ ?_ (fun _ hc => ?_) ?_ CycMove.refl
    · exact hself _
    · rfl
    · change Function.update w.1.callback (.cyctmeb j) (some .distributeCychdr) (.cyctmeb j) =
        _ at hc
      rw [Function.update_self] at hc
      exact Cback.noConfusion (Option.some.inj hc)
    · exact fun e he => ⟨hset e he _, Function.update_of_ne he _ _⟩
  · rw [← Option.some.inj hcall]
    refine CycStep.created inv hfree hhdr htim ?_ ?_ (fun h => absurd h hsta) ?_ CycMove.refl
    · exact hself _
    · rfl
    · exact fun e he => ⟨hset e he _, rfl⟩

theorem tkDelCyc_step : CycStep P i w (tkDelCyc j idOk prot w).1 (.delCyc j idOk prot) := by
  have hrefused : CycStep P i w w (.delCyc j idOk prot) := CycStep.same P i w rfl
  unfold tkDelCyc
  dsimp only
  split_ifs with hid hhdr hprot hsta
  · exact hrefused
  · exact hrefused
  · exact hrefused
  all_goals
    obtain rfl : idOk = true := by simpa using hid
    obtain rfl : prot = E_OK := not_not.mp hprot
    by_cases hj : j = i
    · subst hj
      refine .delete rfl rfl fun hc => hc ?_
      show (Function.update w.2.cyccb j _ j).cychdr = 0
      rw [Function.update_self]
    · refine .move (CycMove.of_eq (Function.update_of_ne (show i ≠ j from fun hc => hj hc.symm) _ _)
        ?_ ?_ ?_ ?_) <;> rfl

theorem tkStpCyc_step : CycStep P i w (tkStpCyc j idOk prot w).1 (.stpCyc j idOk prot) := by
  have hrefused : CycStep P i w w (.stpCyc j idOk prot) := CycStep.same P i w rfl
  unfold tkStpCyc
  dsimp only
  have hclear (s' : Timer) (htime : s'.time = w.1.time) (hnow : s'.current_time = w.1.current_time)
      (hcallback : s'.callback = w.1.callback) :
      CycStep P i w (s', w.2.setCyccb j { w.2.cyccb j with
        cycstat := (w.2.cyccb j).cycstat &&& ~~~TCYC_STA }) (.stpCyc j idOk prot) := by
    refine .move (CycMove.after (CycSame.move (CycSame.setCycstat fun hstat => ?_) rfl)
      (CycSame.of_eq rfl (congrFun htime _) hnow (congrFun hcallback _)) rfl)
    simp at hstat
  split_ifs
  · exact hrefused
  · exact hrefused
  · exact hrefused
  · exact hclear _ rfl rfl rfl
  · exact hclear _ rfl rfl rfl

theorem cycStarted_set {s₁ : Timer} {stat : BitVec 32} (hnow : s₁.current_time = w.now)
    (hins : cycTimerInsert fuel i tm (s₁, w.2) = some w₁) :
    CycSet i tm w (w₁.1, w₁.2.setCyccb i { w.2.cyccb i with cycstat := stat }) := by
  obtain ⟨hh, hnow', htime, hcallback⟩ := cycTimerInsert_self hins
  rw [hh]
  have hself : (w.2.setCyccb i { w.2.cyccb i with cycstat := stat }).cyccb i =
      { w.2.cyccb i with cycstat := stat } :=
    setCyccb_cyccb_self
  exact ⟨⟨by rw [hself], by rw [HdrState.period, hself], by rw [hself], hnow'.trans hnow⟩, htime,
    hcallback, rfl⟩

theorem cycStarted_other (hj : j ≠ i) {s₁ : Timer} {cyccb : Cyccb} (htime : s₁.time = w.1.time)
    (hnow : s₁.current_time = w.1.current_time) (hcallback : s₁.callback = w.1.callback)
    (hins : cycTimerInsert fuel j tm (s₁, w.2) = some w₁) :
    CycMove i w (w₁.1, w₁.2.setCyccb j cyccb) := by
  obtain ⟨s', hs, rfl⟩ := cycTimerInsert_some hins
  have hsame : CycSame i w (s₁, w.2) :=
    CycSame.of_eq rfl (congrFun htime _) hnow (congrFun hcallback _)
  exact CycSame.move (hsame.trans ((CycSame.insertOther (cyctmeb_ne hj) hs).trans
    (CycSame.setCyccb hj))) rfl

/-- A start that sets a time: of a handler that is stopped, or that begins a new grid. -/
theorem tkStaCyc_set (hhas : w.HasCyc i)
    (hnew : (w.2.cyccb i).cycatr &&& TA_PHS ≠ 0 → (w.2.cyccb i).cycstat &&& TCYC_STA = 0)
    {r : HdrResult} (hcall : tkStaCyc P fuel i true E_OK w = some r) :
    CycSet i (startTime P i w) w r.1 := by
  unfold tkStaCyc at hcall
  dsimp only at hcall
  rw [if_neg (by decide), if_neg hhas, if_neg (not_not.mpr rfl)] at hcall
  obtain ⟨w₁, hw₁, rfl⟩ := Option.map_eq_some_iff.mp hcall
  unfold startTime
  split at hw₁
  · rename_i hatr
    rw [if_pos (hnew hatr)] at hw₁
    rw [if_pos hatr]
    exact cycStarted_set rfl hw₁
  · rename_i hatr
    rw [if_neg hatr]
    refine cycStarted_set ?_ hw₁
    split_ifs <;> rfl

theorem tkStaCyc_step {r : HdrResult} (hcall : tkStaCyc P fuel j idOk prot w = some r) :
    CycStep P i w r.1 (.staCyc j idOk prot) := by
  have hrefused {v : HdrResult} {a : ER} (hv : some (w, a) = some v) :
      CycStep P i w v.1 (.staCyc j idOk prot) := by
    obtain rfl := Option.some.inj hv
    exact CycStep.same P i w rfl
  have hstarts := hcall
  unfold tkStaCyc at hcall
  dsimp only at hcall
  split at hcall
  · exact hrefused hcall
  rename_i hid
  split at hcall
  · exact hrefused hcall
  rename_i hhas
  split at hcall
  · exact hrefused hcall
  rename_i hprot
  obtain rfl : idOk = true := by simpa using hid
  obtain rfl : prot = E_OK := not_not.mp hprot
  obtain ⟨w₁, hw₁, rfl⟩ := Option.map_eq_some_iff.mp hcall
  split at hw₁
  · rename_i hatr
    split at hw₁
    · rename_i hstopped
      by_cases hj : j = i
      · subst hj
        exact .start (tkStaCyc_set hhas (fun _ => hstopped) hstarts)
      · exact .move (cycStarted_other hj rfl rfl rfl hw₁)
    · rename_i hsta
      obtain rfl := Option.some.inj hw₁
      exact .move (CycSame.move (CycSame.setCycstat fun _ => (sta_iff _).mp hsta) rfl)
  · rename_i hatr
    by_cases hj : j = i
    · subst hj
      exact .start (tkStaCyc_set hhas (fun hc => absurd hc hatr) hstarts)
    · refine .move (cycStarted_other hj ?_ ?_ ?_ hw₁) <;> split_ifs <;> rfl

/-! ## Other calls -/

theorem CycMove.of_same (hcyccb : w'.2.cyccb = w.2.cyccb) (htime : w'.1.time = w.1.time)
    (hnow : w'.1.current_time = w.1.current_time) (hcallback : w'.1.callback = w.1.callback)
    (hrunning : w'.2.running = w.2.running) : CycMove i w w' :=
  CycMove.of_eq (congrFun hcyccb _) (congrFun htime _) hnow (congrFun hcallback _) hrunning

theorem tkCreAlm_move {pk : Tcalm} {rsatrOk : Bool} :
    CycMove i w (tkCreAlm numProc pk rsatrOk prot w).1 := by
  unfold tkCreAlm
  cases w.2.free_almcb with
  | nil => split_ifs <;> exact CycMove.refl
  | cons j free => split_ifs <;> exact CycMove.of_same rfl rfl rfl rfl rfl

theorem tkDelAlm_move : CycMove i w (tkDelAlm j idOk prot w).1 := by
  unfold tkDelAlm
  dsimp only
  split_ifs <;> exact CycMove.of_same rfl rfl rfl rfl rfl

theorem tkStpAlm_move : CycMove i w (tkStpAlm j idOk prot w).1 := by
  unfold tkStpAlm
  dsimp only
  split_ifs <;> exact CycMove.of_same rfl rfl rfl rfl rfl

theorem tkStaAlm_move (inv : HdrInv maxProc (fun _ => False) w q) (hprid : prid < maxProc)
    {almtim : ℕ} {r : HdrResult}
    (hcall : tkStaAlm P maxProc fuel prid j almtim idOk prot w = some r) : CycMove i w r.1 := by
  have hrefused {v : HdrResult} {a : ER} (hv : some (w, a) = some v) : CycMove i w v.1 := by
    obtain rfl := Option.some.inj hv
    exact CycMove.refl
  unfold tkStaAlm at hcall
  dsimp only at hcall
  split at hcall
  · exact hrefused hcall
  split at hcall
  · exact hrefused hcall
  rename_i hhdr
  split at hcall
  · exact hrefused hcall
  split at hcall
  · exact hrefused hcall
  obtain ⟨w₁, hw₁, rfl⟩ := Option.map_eq_some_iff.mp hcall
  obtain ⟨q', m, hs⟩ := inv.takeOut (almStarted_iff hhdr) fun _ => id
  have hsame : CycSame i w (if (w.2.almcb j).almstat &&& TALM_STA ≠ 0 then
      timerDelete w.1 (.almtmeb j) else w.1, w.2) := by
    split_ifs <;> exact CycSame.of_eq rfl rfl rfl rfl
  split at hw₁
  · obtain ⟨w₂, hw₂, rfl⟩ := Option.map_eq_some_iff.mp hw₁
    obtain ⟨s', hs', rfl⟩ := Option.map_eq_some_iff.mp hw₂
    refine CycSame.move (hsame.trans (CycSame.trans (CycSame.insertOther ?_ hs') CycSame.setAlmcb))
      rfl
    exact Tmeb.noConfusion
  · unfold immediateCallAlmhdr at hw₁
    dsimp only at hw₁
    split at hw₁
    · have hstarted : Almcb.Started ((w.2.setAlmcb j { w.2.almcb j with
          almstat := (w.2.almcb j).almstat ||| TALM_STA }).almcb j) := by
        rw [setAlmcb_almcb_self]
        refine ⟨hhdr, (sta_iff _).mpr ?_⟩
        simp
      obtain ⟨q'', inv', -⟩ :=
        inv.distributeAlmhdr hprid m hs (fun x hx => setAlmcb_marked hx) hstarted rfl rfl
        (inv.blocks.setAlmstat j _)
      exact (checkUpdate_move inv'.eventsRight hprid hw₁).after
        (hsame.trans (CycSame.setAlmcb.trans CycSame.distributeAlmhdr)) rfl
    · obtain rfl := Option.some.inj hw₁
      exact Or.inl ⟨hsame.trans (CycSame.of_eq rfl rfl rfl rfl), leave_others rfl id⟩

theorem wait_move {t : Tsk} {r : Timer × (Tsk → WaitTcb)} {cback : Option Cback} {arg : ℕ}
    (hins : timerInsertAbs fuel w.1 (.wtmeb t) tm cback arg = some r.1) :
    CycMove i w (waitState w r) := by
  have hsame : CycSame i w (r.1, w.2) := CycSame.insertOther Tmeb.noConfusion hins
  exact CycSame.move (hsame.trans (CycSame.of_eq rfl rfl rfl rfl)) rfl

theorem makeWait_move {t : Tsk} {tmout : ℤ} {atr : ℕ} {r : Timer × (Tsk → WaitTcb)}
    (hcall : makeWait P fuel w.1 w.2.tcb t tmout atr = some r) : CycMove i w (waitState w r) := by
  obtain ⟨s', hs, rfl⟩ := Option.map_eq_some_iff.mp hcall
  unfold timerInsert at hs
  dsimp only at hs
  split at hs
  · obtain rfl := Option.some.inj hs
    refine CycMove.of_eq rfl rfl rfl ?_ rfl
    exact Function.update_of_ne (show Tmeb.cyctmeb i ≠ .wtmeb t from Tmeb.noConfusion)
      (some .waitReleaseTmout)
      w.1.callback
  · exact wait_move hs

theorem EventsRight.setCycstat (r : EventsRight maxProc (s, h) q) {stat : BitVec 32}
    (hstat : stat.getLsbD 0 = (h.cyccb j).cycstat.getLsbD 0) :
    EventsRight maxProc (s, h.setCyccb j { h.cyccb j with cycstat := stat }) q := by
  refine ⟨r.rings, r.called, fun g k hk => ?_⟩
  by_cases hkj : k = j
  · subst hkj
    exact setCyccb_marked_self.mpr (((h.cyccb k).started_run hstat).mpr (r.started g k hk))
  · exact (setCyccb_marked (cyctmeb_ne hkj)).mpr (r.started g k hk)

theorem handlerReturn_move (r : EventsRight maxProc w q) (hprid : prid < maxProc) {frame : HdrFrame}
    (hcall : handlerReturn fuel prid w frame = some w') : CycMove i w w' := by
  cases frame with
  | cychdr j para =>
    have hstat : (if para.no = (w.2.cyccb j).cycno then (w.2.cyccb j).cycstat &&& ~~~TCYC_RUN
        else (w.2.cyccb j).cycstat).getLsbD 0 = (w.2.cyccb j).cycstat.getLsbD 0 := by
          split_ifs <;> simp
    exact (handlerExecution_move (r.setCycstat hstat) hprid hcall).after
      (CycSame.setCycstat fun hbit => hstat ▸ hbit) rfl
  | almhdr j para =>
    refine CycMove.after (handlerExecution_move (q := q) ?_ hprid hcall) CycSame.setAlmcb rfl
    exact ⟨r.rings, r.called, r.started⟩
  | immCychdr j para =>
    obtain rfl := Option.some.inj hcall
    refine CycSame.move (CycSame.setCycstat fun hstat => ?_) rfl
    split_ifs at hstat
    · simpa using hstat
    · exact hstat
  | immAlmhdr j para =>
    obtain rfl := Option.some.inj hcall
    exact CycSame.move CycSame.setAlmcb rfl

theorem hdrTick_move (inv : HdrInv maxProc X w q) (hprid : prid < maxProc)
    (hnow : InClock (llAdd w.now P)) (hin : w.HasCyc i → InClock (w.cycTime i))
    (hcall : hdrTick P maxProc fuel prid w = some w') :
    CycMove i ((HdrOp.tick prid).before P w) w' := by
  obtain ⟨w₁, hw₁, hupdate⟩ := Option.bind_eq_some_iff.mp hcall
  obtain ⟨hsame, hrun, q', inv'⟩ := expire_same hprid (inv.advance P) hnow hin hw₁
  exact (checkUpdate_move inv'.eventsRight hprid hupdate).after hsame hrun

/-! ## Every operation -/

/-- **What an operation does to a handler**, whatever the operation is. -/
theorem HdrOp.cycStep (hset : Settled maxProc w) (hn : numProc ≤ maxProc) (hmax : maxProc ≤ 32)
    (legal : op.Legal numProc w) (hnow : InClock (llAdd w.now P))
    (hin : w.HasCyc i → InClock (w.cycTime i))
    (hexec : op.exec P maxProc numProc fuel w = some w') :
    CycStep P i w w' op := by
  obtain ⟨q, inv, hquiet⟩ := hset
  cases op with
  | creCyc prid pk rsatrOk prot =>
    obtain ⟨r, hr, rfl⟩ := Option.map_eq_some_iff.mp hexec
    exact tkCreCyc_step inv (lt_of_lt_of_le legal hn) hn hmax hr
  | delCyc j idOk prot =>
    obtain rfl := Option.some.inj hexec
    exact tkDelCyc_step
  | staCyc j idOk prot =>
    obtain ⟨r, hr, rfl⟩ := Option.map_eq_some_iff.mp hexec
    exact tkStaCyc_step hr
  | stpCyc j idOk prot =>
    obtain rfl := Option.some.inj hexec
    exact tkStpCyc_step
  | creAlm pk rsatrOk prot =>
    obtain rfl := Option.some.inj hexec
    exact .move tkCreAlm_move
  | delAlm j idOk prot =>
    obtain rfl := Option.some.inj hexec
    exact .move tkDelAlm_move
  | staAlm prid j almtim idOk prot =>
    obtain ⟨r, hr, rfl⟩ := Option.map_eq_some_iff.mp hexec
    exact .move (tkStaAlm_move inv (lt_of_lt_of_le legal hn) hr)
  | stpAlm j idOk prot =>
    obtain rfl := Option.some.inj hexec
    exact .move tkStpAlm_move
  | resume prid =>
    refine .move ?_
    dsimp only [HdrOp.exec] at hexec
    cases hrun : w.2.running prid with
    | nil =>
      rw [hrun] at hexec
      obtain rfl := Option.some.inj hexec
      refine CycMove.of_same rfl rfl rfl rfl ?_
      show w.2.running = Function.update w.2.running prid (w.2.running prid).tail
      rw [hrun, List.tail_nil, ← hrun, Function.update_eq_self]
    | cons frame rest =>
      rw [hrun] at hexec
      dsimp only [HdrOp.before]
      rw [hrun]
      have r :
          EventsRight maxProc (w.1, { w.2 with running := Function.update w.2.running prid rest })
          q :=
        ⟨inv.rings, inv.called, inv.eventsRight.started⟩
      exact handlerReturn_move r (lt_of_lt_of_le legal hn) hexec
  | tick prid => exact .move (hdrTick_move inv (lt_of_lt_of_le legal hn) hnow hin hexec)
  | interrupt prid =>
    refine .move (CycMove.after (handlerExecution_move (q := q) ?_ (lt_of_lt_of_le legal hn) hexec)
      ?_ rfl)
    · exact ⟨inv.rings, inv.called, inv.eventsRight.started⟩
    · exact CycSame.of_eq rfl rfl rfl rfl
  | wait t tmout atr =>
    obtain ⟨r, hr, rfl⟩ := Option.map_eq_some_iff.mp hexec
    exact .move (makeWait_move hr)
  | waitReltim t tmout atr =>
    obtain ⟨r, hr, rfl⟩ := Option.map_eq_some_iff.mp hexec
    obtain ⟨s', hs, rfl⟩ := Option.map_eq_some_iff.mp hr
    exact .move (wait_move hs)
  | waitRelease t =>
    obtain rfl := Option.some.inj hexec
    exact .move (CycMove.of_same rfl rfl rfl rfl rfl)
  | setTask t tcb =>
    obtain rfl := Option.some.inj hexec
    exact .move (CycMove.of_same rfl rfl rfl rfl rfl)

end SmpTKernel
