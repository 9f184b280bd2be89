import SmpTKernel.RendezvousInv

/-!
# Calls and acceptances

With the view that its history comes to, a state also has the numbers that are still to be
generated. A call or an acceptance keeps all this, whether it meets another task, waits or fails.
-/

namespace SmpTKernel

open History

variable {N p : ℕ} {s s' : PorState} {v v' : PorView} {log evs : List PorEvent} {t u self : Tsk}
  {tcb : PorTcb} {calptn acpptn rdvno : BitVec 32} {cmsgsz : ℤ}

/-- The numbers of the `N` tasks count what has been generated for them, and only these tasks
call. -/
structure Counts (N : ℕ) (s : PorState) (v : PorView) : Prop where
  number : ∀ t < N, rdvnoCount (s.tcb t).wrdvno = v.count t % 16
  index : ∀ t < N, indexTsk (getTskidRdvno (s.tcb t).wrdvno) = t
  callers : ∀ t, v.cal t ≠ .idle → t < N

structure PorInv (N : ℕ) (s : PorState) (log : List PorEvent) : Prop where
  right : Right AllowedAfter log
  agrees : Agrees s (viewOf log)
  counts : Counts N s (viewOf log)

theorem right_append (h : Right AllowedAfter log)
    (h' : RightFrom PorEvent.view PorView.Allows (viewOf log) evs) :
    Right AllowedAfter (log ++ evs) :=
  Right.append h h'

/-- Allowed events that lead from one view to another. -/
def Leads (v : PorView) (evs : List PorEvent) (v' : PorView) : Prop :=
  RightFrom PorEvent.view PorView.Allows v evs ∧ summary PorEvent.view v evs = v'

theorem PorInv.grow (inv : PorInv N s log) (h : Leads (viewOf log) evs v') (hagrees : Agrees s' v')
    (hcounts : Counts N s' v') : PorInv N s' (log ++ evs) := by
  have hv : viewOf (log ++ evs) = v' := viewOf_append.trans h.2
  refine ⟨right_append inv.right h.1, ?_, ?_⟩ <;> rw [hv]
  · exact hagrees
  · exact hcounts

theorem PorInv.quiet (inv : PorInv N s log) (hagrees : Agrees s' (viewOf log))
    (hcounts : Counts N s' (viewOf log)) :
    PorInv N s' (log ++ []) := inv.grow ⟨trivial, rfl⟩ hagrees hcounts

/-! ## What counts -/

theorem Counts.same (h : Counts N s v) (hw : ∀ u, (s'.tcb u).wrdvno = (s.tcb u).wrdvno)
    (hcount : v'.count = v.count) (hcal : ∀ u, v'.cal u ≠ .idle → v.cal u ≠ .idle ∨ u < N) :
    Counts N s' v' := by
  refine ⟨fun u hu => ?_, fun u hu => ?_, fun u hu => ?_⟩
  · rw [hw, hcount]
    exact h.number u hu
  · rw [hw]
    exact h.index u hu
  · exact (hcal u hu).elim (h.callers u) id

theorem Counts.memcpy (h : Counts N s v) (dst src : ℕ) (n : ℤ) : Counts N (s.memcpy dst src n) v :=
  ⟨h.number, h.index, h.callers⟩

theorem Counts.next (h : Counts N s v) (hself : (s'.tcb t).wrdvno = nextRdvno (s.tcb t).wrdvno)
    (hw : ∀ u, u ≠ t → (s'.tcb u).wrdvno = (s.tcb u).wrdvno)
    (hcount : v'.count = (v.countUp t).count)
    (hcal : ∀ u, v'.cal u ≠ .idle → v.cal u ≠ .idle ∨ u < N) : Counts N s' v' := by
  have hc (u : Tsk) : v'.count u = Function.update v.count t (v.count t + 1) u := congrFun hcount u
  refine ⟨fun u hu => ?_, fun u hu => ?_, fun u hu => ?_⟩
  · rw [hc]
    by_cases hut : u = t
    · subst hut
      rw [hself, rdvnoCount_next, h.number u hu, Function.update_self, Nat.mod_add_mod]
    · rw [hw u hut, Function.update_of_ne hut]
      exact h.number u hu
  · by_cases hut : u = t
    · subst hut
      rw [hself, getTskidRdvno_next]
      exact h.index u hu
    · rw [hw u hut]
      exact h.index u hu
  · exact (hcal u hu).elim (h.callers u) id

theorem setCal_ne_idle {c : CalStatus} (hc : c = .idle ∨ t < N) (h : (v.setCal t c).cal u ≠ .idle) :
    v.cal u ≠ .idle ∨ u < N := by
  by_cases hu : u = t
  · subst hu
    rw [PorView.setCal_cal_self] at h
    exact Or.inr (hc.resolve_left h)
  · rw [PorView.setCal_cal_of_ne hu] at h
    exact Or.inl h

@[simp] theorem setTcb_tcb_self : (s.setTcb t tcb).tcb t = tcb := Function.update_self ..

@[simp] theorem setTcb_setTcb {tcb' : PorTcb} :
    (s.setTcb t tcb).setTcb t tcb' = s.setTcb t tcb' := by
  unfold PorState.setTcb
  rw [Function.update_idem]

theorem setTcb_tcb_of_ne (h : u ≠ t) : (s.setTcb t tcb).tcb u = s.tcb u :=
  Function.update_of_ne h _ _

theorem setTcb_wrdvno (h : tcb.wrdvno = (s.tcb t).wrdvno) (u : Tsk) :
    ((s.setTcb t tcb).tcb u).wrdvno = (s.tcb u).wrdvno := by
  by_cases hu : u = t
  · subst hu
    rw [setTcb_tcb_self, h]
  · rw [setTcb_tcb_of_ne hu]

theorem waitRelease_wrdvno (s : PorState) (t u : Tsk) :
    ((s.waitRelease t).tcb u).wrdvno = (s.tcb u).wrdvno :=
  @setTcb_wrdvno (s.queRemove t) t (s.tcb t).release rfl u

theorem readyRdv_wrdvno {msg : ℕ} (h : tcb.wrdvno = (s.tcb t).wrdvno) (u : Tsk) :
    ((s.readyRdv p t rdvno msg tcb).tcb u).wrdvno = (s.tcb u).wrdvno :=
  setTcb_wrdvno (by exact h) u

/-! ## Tasks in queues -/

/-- A task that runs, or is suspended before it can wait. -/
def Running (s : PorState) (t : Tsk) : Prop := (s.tcb t).state = .ready ∨ (s.tcb t).state = .suspend

theorem Running.not_waiting (h : Running s t) : (s.tcb t).waiting = false := by
  unfold PorTcb.waiting
  rcases h with h | h <;> rw [h] <;> rfl

theorem Running.wait_waiting (h : Running s t) (tmout : ℤ) (atr : ℕ) :
    ((s.tcb t).wait tmout atr).waiting = true := by
  unfold PorTcb.wait PorTcb.waiting
  rcases h with h | h <;> rw [h] <;> rfl

theorem Agrees.idle (h : Agrees s v) (hw : (s.tcb t).waiting = false) :
    v.cal t = .idle ∧ v.acp t = none := by
  rw [h.cal, h.acp]
  exact ⟨PorTcb.calStatus_of_not_waiting hw, PorTcb.acpStatus_of_not_waiting hw⟩

theorem Agrees.acceptor (h : Agrees s v) (ht : t ∈ (s.porcb p).accept_queue) :
    v.acp t = some (p, (s.tcb t).winfo.word) ∧ v.cal t = .idle ∧ (s.tcb t).waiting = true ∧
      (s.tcb t).wspec = .acp := by
  obtain ⟨acpptn, hacp⟩ := (h.accept_queue p t).mp ht
  have hst := (h.acp t).symm.trans hacp
  have hne : (s.tcb t).acpStatus ≠ none := by
    rw [hst]
    exact Option.some_ne_none _
  have hw := PorTcb.waiting_of_acpStatus hne
  have hcal := (h.cal t).trans (PorTcb.calStatus_of_acpStatus hne)
  unfold PorTcb.acpStatus at hst
  rw [if_pos hw] at hst
  cases hwspec : (s.tcb t).wspec with
  | acp =>
    rw [hwspec] at hst
    refine ⟨?_, hcal, hw, rfl⟩
    rw [hacp, ← hst, (Prod.mk.inj (Option.some.inj hst)).1]
  | _ =>
    rw [hwspec] at hst
    exact absurd hst.symm (Option.some_ne_none _)

/-- A task found in a call queue. -/
theorem Agrees.caller (h : Agrees s v) (ht : t ∈ (s.porcb p).call_queue) :
    v.cal t = .calling p (s.tcb t).winfo.word (s.tcb t).winfo.size ∧ v.acp t = none ∧
      (s.tcb t).waiting = true ∧
      ((s.tcb t).wspec = .calTfifo ∨ (s.tcb t).wspec = .calTpri) := by
  obtain ⟨calptn, cmsgsz, hcal⟩ := (h.call_queue p t).mp ht
  have hst := (h.cal t).symm.trans hcal
  have hne : (s.tcb t).calStatus ≠ .idle := by
    rw [hst]
    exact CalStatus.noConfusion
  have hw := PorTcb.waiting_of_calStatus hne
  have hacp := (h.acp t).trans (PorTcb.acpStatus_of_calStatus hne)
  unfold PorTcb.calStatus at hst
  rw [if_pos hw] at hst
  have hcalling (hmem : (s.tcb t).wspec = .calTfifo ∨ (s.tcb t).wspec = .calTpri)
      (he : CalStatus.calling (s.tcb t).wid (s.tcb t).winfo.word (s.tcb t).winfo.size =
        .calling p calptn cmsgsz) :
      v.cal t = .calling p (s.tcb t).winfo.word (s.tcb t).winfo.size ∧ v.acp t = none ∧
        (s.tcb t).waiting = true ∧
        ((s.tcb t).wspec = .calTfifo ∨ (s.tcb t).wspec = .calTpri) := by
    obtain ⟨-, hword, hsize⟩ := CalStatus.calling.inj he
    rw [hword, hsize]
    exact ⟨hcal, hacp, hw, hmem⟩
  cases hwspec : (s.tcb t).wspec with
  | calTfifo =>
    rw [hwspec] at hst
    exact hwspec ▸ hcalling (Or.inl hwspec) hst
  | calTpri =>
    rw [hwspec] at hst
    exact hwspec ▸ hcalling (Or.inr hwspec) hst
  | _ =>
    rw [hwspec] at hst
    exact CalStatus.noConfusion hst

theorem Agrees.met (h : Agrees s v) (hrdv : ¬PorState.notRdv rdvno (s.tcb t)) :
    v.cal t = .met rdvno (s.tcb t).winfo.size ∧ v.acp t = none ∧ (s.tcb t).waiting = true ∧
      (s.tcb t).wspec = .rdv := by
  obtain ⟨hw, hrest⟩ := not_or.mp hrdv
  obtain ⟨hwspec, hword⟩ := not_or.mp hrest
  rw [Bool.not_eq_false] at hw
  rw [not_ne_iff] at hwspec hword
  have hst := PorTcb.calStatus_rdv hw hwspec
  have hne : (s.tcb t).calStatus ≠ .idle := by
    rw [hst]
    exact CalStatus.noConfusion
  rw [h.cal, h.acp, hst, ← hword]
  exact ⟨rfl, PorTcb.acpStatus_of_calStatus hne, hw, hwspec⟩

theorem searchPtn_some {ptn : BitVec 32} {queue : List Tsk} (h : s.searchPtn ptn queue = some t) :
    t ∈ queue ∧ ptn &&& (s.tcb t).winfo.word ≠ 0 := by
  unfold PorState.searchPtn at h
  have hptn := List.find?_some h
  exact ⟨List.mem_of_find?_eq_some h, of_decide_eq_true hptn⟩

/-! ## The ends of waits -/

/-- What the end of a wait does to the view. -/
def PorView.release (v : PorView) (t : Tsk) : PorView := (v.setCal t .idle).setAcp t none

theorem PorView.release_cal (h : v.acp t = none) : v.release t = v.setCal t .idle :=
  setAcp_eq_self h

theorem PorView.release_acp (h : v.cal t = .idle) : v.release t = v.setAcp t none := by
  unfold release
  rw [setCal_eq_self h]

/-- The end of a wait is in the history as the end of what the task has called. -/
theorem Agrees.endEvents (h : Agrees s v) (hw : (s.tcb t).waiting = true) (ercd : Option ER) :
    Leads v (s.endEvents t ercd) (v.release t) := by
  have hcal := h.cal t
  have hacp := h.acp t
  unfold PorTcb.calStatus at hcal
  unfold PorTcb.acpStatus at hacp
  rw [if_pos hw] at hcal hacp
  unfold PorState.endEvents
  cases hwspec : (s.tcb t).wspec with
  | calTfifo | calTpri | rdv =>
    rw [hwspec] at hcal hacp
    refine ⟨⟨?_, trivial⟩, (PorView.release_cal hacp).symm⟩
    show v.cal t ≠ .idle
    rw [hcal]
    exact CalStatus.noConfusion
  | acp =>
    rw [hwspec] at hcal hacp
    refine ⟨⟨?_, trivial⟩, (PorView.release_acp hcal).symm⟩
    show v.acp t ≠ none
    rw [hacp]
    exact Option.some_ne_none _
  | other tskwait =>
    rw [hwspec] at hcal hacp
    refine ⟨trivial, ?_⟩
    rw [PorView.release_cal hacp, PorView.setCal_eq_self hcal]
    rfl

theorem endEvents_call
    (h : (s.tcb t).wspec = .calTfifo ∨ (s.tcb t).wspec = .calTpri ∨ (s.tcb t).wspec = .rdv)
    (ercd : Option ER) : s.endEvents t ercd = [.callEnds t ercd] := by
  unfold PorState.endEvents
  rcases h with h | h | h <;> rw [h]

theorem release_ne_idle (h : (v.release t).cal u ≠ .idle) : v.cal u ≠ .idle ∨ u < N :=
  setCal_ne_idle (Or.inl rfl) h

theorem PorInv.waitReleaseNg (inv : PorInv N s log) (hw : (s.tcb t).waiting = true) (ercd : ER) :
    PorInv N (s.waitReleaseNg t ercd).1 (log ++ (s.waitReleaseNg t ercd).2) ∧
      viewOf (log ++ (s.waitReleaseNg t ercd).2) = (viewOf log).release t := by
  have hends := inv.agrees.endEvents hw (some ercd)
  refine ⟨inv.grow hends (inv.agrees.waitRelease t) ?_, viewOf_append.trans hends.2⟩
  exact inv.counts.same (waitRelease_wrdvno s t) rfl fun u => release_ne_idle

/-! ## Calls -/

/-- What a call leaves is right. -/
def Keeps (N : ℕ) (log : List PorEvent) (r : PorResult) : Prop := PorInv N r.1 (log ++ r.2.1)

theorem keeps_ite {c : Prop} [Decidable c] {a b : PorResult} (ha : c → Keeps N log a)
    (hb : ¬c → Keeps N log b) :
    Keeps N log (if c then a else b) := by
  split_ifs with h
  · exact ha h
  · exact hb h

theorem PorInv.refuse (inv : PorInv N s log) (ercd : Option ℤ) : Keeps N log (s, [], ercd) :=
  inv.quiet inv.agrees inv.counts

theorem Agrees.callFails (h : Agrees s v) (hself : Running s self) (hfits : cmsgsz ≤ (v.limits p).1)
    (calptn : BitVec 32) (ercd : ER) :
    Leads v [.calls self p calptn cmsgsz, .callEnds self (some ercd)] v := by
  obtain ⟨hidle, -⟩ := h.idle hself.not_waiting
  refine ⟨⟨⟨hidle, hfits⟩, ?_, trivial⟩, ?_⟩
  · show (v.setCal self _).cal self ≠ .idle
    rw [PorView.setCal_cal_self]
    exact CalStatus.noConfusion
  · show (v.setCal self _).setCal self .idle = v
    rw [PorView.setCal_setCal, PorView.setCal_eq_self hidle]

/-! ### Messages to acceptors -/

theorem genRdvno_tcb_self (s : PorState) (t : Tsk) :
    (s.genRdvno t).2.tcb t = { s.tcb t with wrdvno := nextRdvno (s.tcb t).wrdvno } :=
  setTcb_tcb_self

theorem genRdvno_wrdvno (s : PorState) (h : u ≠ t) :
    ((s.genRdvno t).2.tcb u).wrdvno = (s.tcb u).wrdvno :=
  congrArg PorTcb.wrdvno (setTcb_tcb_of_ne h)

theorem Counts.genRdvno (h : Counts N s v) (t : Tsk) : Counts N (s.genRdvno t).2 (v.countUp t) :=
  h.next (congrArg PorTcb.wrdvno (genRdvno_tcb_self s t)) (fun _ hu => genRdvno_wrdvno s hu) rfl
  fun _ h => Or.inl h

theorem Agrees.genRdvno (h : Agrees s v) (t : Tsk) : Agrees (s.genRdvno t).2 v :=
  h.same rfl rfl (h.timed t)

section SendMessage

variable {cal : Tsk} {msg : ℕ}

theorem sendMessage_tcb (h : cal ≠ t) :
    (s.sendMessage cal t msg cmsgsz).tcb cal =
    { s.tcb cal with wrdvno := nextRdvno (s.tcb cal).wrdvno } := by
  unfold PorState.sendMessage PorState.waitRelease
  rw [setTcb_tcb_of_ne h]
  exact setTcb_tcb_self

theorem sendMessage_wrdvno (h : u ≠ cal) :
    ((s.sendMessage cal t msg cmsgsz).tcb u).wrdvno = (s.tcb u).wrdvno :=
  (waitRelease_wrdvno _ t u).trans (genRdvno_wrdvno s h)

theorem Agrees.sendMessage (h : Agrees s v) (ht : v.cal t = .idle) :
    Agrees (s.sendMessage cal t msg cmsgsz) (v.setAcp t none) := by
  rw [← PorView.release_acp ht]
  exact ((h.genRdvno cal).memcpy _ _ _).waitRelease t

theorem Counts.sendMessage (h : Counts N s v) (hne : cal ≠ t)
    (hcount : v'.count = (v.countUp cal).count)
    (hcal : ∀ u, v'.cal u ≠ .idle → v.cal u ≠ .idle ∨ u < N) :
    Counts N (s.sendMessage cal t msg cmsgsz) v' :=
  h.next (congrArg PorTcb.wrdvno (sendMessage_tcb hne)) (fun _ hu => sendMessage_wrdvno hu)
  hcount hcal

end SendMessage

theorem Leads.callEnds (h : Leads v evs v') (hcal : v'.cal t ≠ .idle) (ercd : Option ER) :
    Leads v (evs ++ [.callEnds t ercd]) (v'.setCal t .idle) := by
  obtain ⟨hallowed, rfl⟩ := h
  exact ⟨hallowed.append ⟨hcal, trivial⟩, summary_append _ _⟩

theorem Leads.meetFails {c : CalStatus} (h : Leads v evs ((v'.setCal t c).countUp t))
    (hc : c ≠ .idle) (ercd : Option ER) :
    Leads v (evs ++ [.callEnds t ercd]) ((v'.setCal t .idle).countUp t) := by
  have hcal : ((v'.setCal t c).countUp t).cal t ≠ .idle := by
    rwa [PorView.countUp_cal, PorView.setCal_cal_self]
  have hends := h.callEnds hcal ercd
  have hview : ((v'.setCal t c).countUp t).setCal t .idle =
    ((v'.setCal t c).setCal t .idle).countUp t := rfl
  rwa [hview, PorView.setCal_setCal] at hends

theorem queRemove_readyRdv (s : PorState) (p : ℕ) (t : Tsk) (rdvno : BitVec 32) (msg : ℕ)
    (tcb : PorTcb) :
    (s.queRemove t).readyRdv p t rdvno msg tcb = (s.waitRelease t).readyRdv p t rdvno msg tcb := by
  unfold PorState.readyRdv PorState.waitRelease
  rw [setTcb_setTcb]
  rfl

/-- A task that is in no queue waits for the end of a rendezvous. -/
theorem Agrees.readyRdvTcb (h : Agrees s v)
    (hfree : ∀ p calptn cmsgsz, v.cal t ≠ .calling p calptn cmsgsz) (hacp : v.acp t = none)
    (hw : tcb.waiting = true) (hwspec : tcb.wspec = .rdv) :
    Agrees (s.setTcb t tcb) (v.setCal t (.met tcb.winfo.word tcb.winfo.size)) := by
  have hst := PorTcb.calStatus_rdv hw hwspec
  rw [← hst]
  apply h.put hfree hacp
  · intro q ptn sz e
    rw [hst] at e
    exact CalStatus.noConfusion e
  · apply PorTcb.acpStatus_of_calStatus
    rw [hst]
    exact CalStatus.noConfusion
  · exact fun _ => hw

theorem Agrees.readyRdv (h : Agrees s v)
    (hfree : ∀ p calptn cmsgsz, v.cal t ≠ .calling p calptn cmsgsz) (hacp : v.acp t = none)
    (hw : tcb.waiting = true) (p : ℕ) (rdvno : BitVec 32) (msg : ℕ) :
    Agrees (s.readyRdv p t rdvno msg tcb) (v.setCal t (.met rdvno (s.porcb p).maxrmsz)) := by
  exact h.readyRdvTcb hfree hacp hw rfl

theorem not_calling_of_idle (h : v.cal t = .idle) (p : ℕ) (calptn : BitVec 32) (cmsgsz : ℤ) :
    v.cal t ≠ .calling p calptn cmsgsz := by
  rw [h]
  exact CalStatus.noConfusion

theorem leads_calls_accepts {acpptn : BitVec 32} (hidle : v.cal self = .idle)
    (hfits : cmsgsz ≤ (v.limits p).1) (hacp : v.acp t = some (p, acpptn))
    (hptn : calptn &&& acpptn ≠ 0) (hindex : indexTsk (getTskidRdvno rdvno) = self)
    (hcount : rdvnoCount rdvno = v.count self % 16) :
    Leads v [.calls self p calptn cmsgsz, .accepts t acpptn self p calptn rdvno cmsgsz]
      (((v.setAcp t none).setCal self (.met rdvno (v.limits p).2)).countUp self) := by
  refine ⟨⟨⟨hidle, hfits⟩, ⟨hacp, PorView.setCal_cal_self, hptn, hfits, hindex, hcount⟩, trivial⟩,
    ?_⟩
  show (((v.setAcp t none).setCal self _).setCal self _).countUp self = _
  rw [PorView.setCal_setCal]
  rfl

theorem PorInv.calMeet (inv : PorInv N s log) (hself : Running s self) (hN : self < N)
    (hp : (s.porcb p).porid ≠ 0) (hsz : cmsgsz ≤ (s.porcb p).maxcmsz)
    (ht : t ∈ (s.porcb p).accept_queue) (hptn : calptn &&& (s.tcb t).winfo.word ≠ 0) (msg : ℕ) :
    Keeps N log (s.calMeet self p calptn msg cmsgsz t) := by
  obtain ⟨hidle, hnone⟩ := inv.agrees.idle hself.not_waiting
  obtain ⟨htacp, htcal, htw, -⟩ := inv.agrees.acceptor ht
  have hlimits := inv.agrees.limits p hp
  have hfits : cmsgsz ≤ ((viewOf log).limits p).1 := by rwa [hlimits]
  have hne : self ≠ t := fun e => by
    rw [← e, hself.not_waiting] at htw
    exact Bool.false_ne_true htw
  have hagrees : Agrees (s.sendMessage self t msg cmsgsz) ((viewOf log).setAcp t none) :=
    inv.agrees.sendMessage htcal
  have hmeets :=
    leads_calls_accepts hidle hfits htacp hptn (inv.counts.index self hN)
      (inv.counts.number self hN)
  unfold PorState.calMeet
  refine keeps_ite (fun _ => ?_) fun _ => keeps_ite (fun _ => ?_) fun _ => ?_
  · exact inv.grow (inv.agrees.callFails hself hfits calptn E_DISWAI) inv.agrees inv.counts
  · -- the call ends all the same
    have hends := hmeets.meetFails CalStatus.noConfusion (some E_DISWAI)
    have hidle' : ((viewOf log).setAcp t none).setCal self .idle = (viewOf log).setAcp t none :=
      PorView.setCal_eq_self hidle
    rw [hidle'] at hends
    exact inv.grow hends (hagrees.countUp self) (inv.counts.sendMessage hne rfl fun u h => Or.inl h)
  · have hrun : Running (s.sendMessage self t msg cmsgsz) self := by
      unfold Running
      rw [sendMessage_tcb hne]
      exact hself
    have hfree : ∀ q ptn sz, ((viewOf log).setAcp t none).cal self ≠ .calling q ptn sz :=
      not_calling_of_idle hidle
    have hacp : ((viewOf log).setAcp t none).acp self = none :=
      (PorView.setAcp_acp_of_ne hne).trans hnone
    have hready :=
      hagrees.readyRdv hfree hacp (hrun.wait_waiting TMO_FEVR (s.porcb p).poratr) p
        (s.tcb self).wrdvno msg
    have hcounts :
      Counts N (s.sendMessage self t msg cmsgsz) ((((viewOf log).setAcp t none).setCal self
        (.met (s.tcb self).wrdvno (s.porcb p).maxrmsz)).countUp self) :=
      inv.counts.sendMessage hne rfl fun u h => setCal_ne_idle (Or.inr hN) h
    rw [hlimits] at hmeets
    exact inv.grow hmeets (hready.countUp self)
      (hcounts.same (fun u => readyRdv_wrdvno (by rfl) u) rfl fun u h => Or.inl h)

theorem wspecCal_tskwait (s : PorState) (p : ℕ) :
    s.wspecCal p = .calTfifo ∨ s.wspecCal p = .calTpri := by
  unfold PorState.wspecCal
  split_ifs
  · exact Or.inr rfl
  · exact Or.inl rfl

theorem calStatus_wspecCal (hw : tcb.waiting = true)
    (hwspec : tcb.wspec = .calTfifo ∨ tcb.wspec = .calTpri) :
    tcb.calStatus = .calling tcb.wid tcb.winfo.word tcb.winfo.size := by
  unfold PorTcb.calStatus
  rw [if_pos hw]
  rcases hwspec with h | h <;> rw [h]

theorem Agrees.idleTcb (h : Agrees s v) (hw : (s.tcb t).waiting = false) (hw' : tcb.waiting = false)
    (htimed : tcb.timed = (s.tcb t).timed) : Agrees (s.setTcb t tcb) v := by
  apply h.same
  · rw [PorTcb.calStatus_of_not_waiting hw, PorTcb.calStatus_of_not_waiting hw']
  · rw [PorTcb.acpStatus_of_not_waiting hw, PorTcb.acpStatus_of_not_waiting hw']
  · rw [htimed, hw', ← hw]
    exact h.timed t

theorem PorInv.calWait (inv : PorInv N s log) (hself : Running s self) (hN : self < N)
    (hp : (s.porcb p).porid ≠ 0) (hsz : cmsgsz ≤ (s.porcb p).maxcmsz) (msg : ℕ) (tmout : ℤ) :
    Keeps N log (s.calWait self p calptn msg cmsgsz tmout) := by
  obtain ⟨hidle, hnone⟩ := inv.agrees.idle hself.not_waiting
  have hfits : cmsgsz ≤ ((viewOf log).limits p).1 := by rwa [inv.agrees.limits p hp]
  have hset :
    Agrees (s.setTcb self { s.tcb self with wspec := s.wspecCal p, winfo := ⟨calptn, msg, cmsgsz⟩ })
      (viewOf log) := inv.agrees.idleTcb hself.not_waiting hself.not_waiting rfl
  have hcounts :
    Counts N (s.setTcb self { s.tcb self with wspec := s.wspecCal p, winfo := ⟨calptn, msg,
      cmsgsz⟩ })
      (viewOf log) := inv.counts.same (setTcb_wrdvno rfl) rfl fun u h => Or.inl h
  unfold PorState.calWait
  refine keeps_ite (fun _ => ?_) fun _ => keeps_ite (fun _ => ?_) fun _ => ?_
  · exact inv.grow (inv.agrees.callFails hself hfits calptn E_DISWAI) hset hcounts
  · exact inv.grow (inv.agrees.callFails hself hfits calptn E_TMOUT) hset hcounts
  · dsimp only
    rw [setTcb_tcb_self, setTcb_setTcb]
    have hw : PorTcb.waiting { (PorTcb.wait { s.tcb self with
        wspec := s.wspecCal p
        winfo := ⟨calptn, msg, cmsgsz⟩ } tmout (s.porcb p).poratr) with wid := p } = true :=
      hself.wait_waiting tmout (s.porcb p).poratr
    have hagrees := inv.agrees.callInsert (not_calling_of_idle hidle) hnone
      (calStatus_wspecCal hw (wspecCal_tskwait s p)) hp hsz
    refine inv.grow ⟨⟨⟨hidle, hfits⟩, trivial⟩, rfl⟩ hagrees ?_
    exact inv.counts.same (setTcb_wrdvno (by rfl)) rfl fun u h => setCal_ne_idle (Or.inr hN) h

theorem PorInv.tkCalPor (inv : PorInv N s log) (hself : Running s self) (hN : self < N)
    (idOk ddsp : Bool) (prot : ER) (msg : ℕ) (tmout : ℤ) :
    Keeps N log (s.tkCalPor self p idOk ddsp prot calptn msg cmsgsz tmout) := by
  unfold PorState.tkCalPor
  refine keeps_ite (fun _ => inv.refuse _) fun _ => keeps_ite (fun _ => inv.refuse _) fun _ =>
    keeps_ite (fun _ => inv.refuse _) fun _ => keeps_ite (fun _ => inv.refuse _) fun _ =>
    keeps_ite (fun _ => inv.refuse _) fun _ => keeps_ite (fun _ => inv.refuse _) fun hp =>
    keeps_ite (fun _ => inv.refuse _) fun _ => keeps_ite (fun _ => inv.refuse _) fun hsz => ?_
  cases hsearch : s.searchPtn calptn (s.porcb p).accept_queue with
  | some t =>
    obtain ⟨ht, hptn⟩ := searchPtn_some hsearch
    exact inv.calMeet hself hN hp (not_lt.mp hsz) ht hptn msg
  | none => exact inv.calWait hself hN hp (not_lt.mp hsz) msg tmout

/-! ### Acceptances -/

theorem Agrees.askFails (h : Agrees s v) (hself : Running s self) (p : ℕ) (acpptn : BitVec 32)
    (ercd : ER) :
    Leads v [.asks self p acpptn, .askEnds self (some ercd)] v := by
  obtain ⟨-, hnone⟩ := h.idle hself.not_waiting
  refine ⟨⟨hnone, ?_, trivial⟩, ?_⟩
  · show (v.setAcp self _).acp self ≠ none
    rw [PorView.setAcp_acp_self]
    exact Option.some_ne_none _
  · show (v.setAcp self _).setAcp self none = v
    rw [PorView.setAcp_setAcp, PorView.setAcp_eq_self hnone]

theorem leads_asks_accepts (hnone : v.acp self = none) (hcal : v.cal t = .calling p calptn cmsgsz)
    (hfits : cmsgsz ≤ (v.limits p).1) (hptn : acpptn &&& calptn ≠ 0)
    (hindex : indexTsk (getTskidRdvno rdvno) = t) (hcount : rdvnoCount rdvno = v.count t % 16) :
    Leads v [.asks self p acpptn, .accepts self acpptn t p calptn rdvno cmsgsz]
      ((v.setCal t (.met rdvno (v.limits p).2)).countUp t) := by
  rw [BitVec.and_comm] at hptn
  refine ⟨⟨hnone, ⟨PorView.setAcp_acp_self, hcal, hptn, hfits, hindex, hcount⟩, trivial⟩, ?_⟩
  show (((v.setAcp self _).setAcp self none).setCal t _).countUp t = _
  rw [PorView.setAcp_setAcp, PorView.setAcp_eq_self hnone]
  rfl

/-- A task that waits to be accepted is ready for rendezvous end wait. -/
theorem Agrees.makeRdv (h : Agrees s v) (hw : (s.tcb t).waiting = true) (hacp : v.acp t = none)
    (p : ℕ) (rdvno : BitVec 32) (msg : ℕ) :
    Agrees ((s.queRemove t).readyRdv p t rdvno msg { (s.queRemove t).tcb t with timed := false })
      (v.setCal t (.met rdvno (s.porcb p).maxrmsz)) := by
  have hidle : (v.setCal t .idle).cal t = .idle := PorView.setCal_cal_self
  have hrelease : Agrees (s.waitRelease t) (v.release t) := h.waitRelease t
  have hw' : PorTcb.waiting { (s.queRemove t).tcb t with timed := false } = true := hw
  rw [PorView.release_cal hacp] at hrelease
  have hready := hrelease.readyRdv (not_calling_of_idle hidle) hacp hw' p rdvno msg
  rw [PorView.setCal_setCal] at hready
  rw [queRemove_readyRdv]
  exact hready

theorem PorInv.acpMeet (inv : PorInv N s log) (hself : Running s self) (hp : (s.porcb p).porid ≠ 0)
    (ht : t ∈ (s.porcb p).call_queue) (hptn : acpptn &&& (s.tcb t).winfo.word ≠ 0) (msg : ℕ) :
    Keeps N log (s.acpMeet self p acpptn msg t) := by
  obtain ⟨-, hnone⟩ := inv.agrees.idle hself.not_waiting
  obtain ⟨hcal, hacp, hw, hwspec⟩ := inv.agrees.caller ht
  have hN : t < N := inv.counts.callers t (by rw [hcal]; exact CalStatus.noConfusion)
  have hlimits := inv.agrees.limits p hp
  have hmeets :=
    leads_asks_accepts hnone hcal (inv.agrees.fits t p _ _ hcal) hptn (inv.counts.index t hN)
    (inv.counts.number t hN)
  have hagrees : Agrees ((s.genRdvno t).2.memcpy msg (s.tcb t).winfo.msg (s.tcb t).winfo.size)
      (viewOf log) :=
    (inv.agrees.genRdvno t).memcpy _ _ _
  have hcounts : Counts N ((s.genRdvno t).2.memcpy msg (s.tcb t).winfo.msg (s.tcb t).winfo.size)
      ((viewOf log).countUp t) := (inv.counts.genRdvno t).memcpy _ _ _
  unfold PorState.acpMeet
  refine keeps_ite (fun _ => ?_) fun _ => keeps_ite (fun _ => ?_) fun _ => ?_
  · exact inv.grow (inv.agrees.askFails hself p acpptn E_DISWAI) inv.agrees inv.counts
  · -- the call ends all the same
    have hends : ((s.genRdvno t).2.memcpy msg (s.tcb t).winfo.msg (s.tcb t).winfo.size).endEvents t
      (some E_DISWAI) =
        [.callEnds t (some E_DISWAI)] := by
      apply endEvents_call
      show ((s.genRdvno t).2.tcb t).wspec = _ ∨ ((s.genRdvno t).2.tcb t).wspec = _ ∨ _
      rw [genRdvno_tcb_self]
      exact hwspec.elim Or.inl fun h => Or.inr (Or.inl h)
    have hrelease := hagrees.waitRelease t
    change Agrees _ ((viewOf log).release t) at hrelease
    rw [PorView.release_cal hacp] at hrelease
    unfold PorState.waitReleaseNg
    dsimp only
    rw [hends]
    exact inv.grow (hmeets.meetFails CalStatus.noConfusion (some E_DISWAI)) (hrelease.countUp t)
      (hcounts.same (waitRelease_wrdvno _ t) rfl fun u => setCal_ne_idle (Or.inr hN))
  · have hw' : ((s.genRdvno t).2.tcb t).waiting = true := by
      rw [genRdvno_tcb_self]
      exact hw
    have hready := hagrees.makeRdv hw' hacp p (s.genRdvno t).1 (s.tcb t).winfo.msg
    rw [hlimits] at hmeets
    exact inv.grow hmeets (hready.countUp t)
      (hcounts.same (fun u => setTcb_wrdvno (by rfl) u) rfl fun u => setCal_ne_idle (Or.inr hN))

theorem PorInv.acpWait (inv : PorInv N s log) (hself : Running s self) (hp : (s.porcb p).porid ≠ 0)
    (msg : ℕ) (tmout : ℤ) : Keeps N log (s.acpWait self p acpptn msg tmout) := by
  obtain ⟨hidle, hnone⟩ := inv.agrees.idle hself.not_waiting
  unfold PorState.acpWait
  refine keeps_ite (fun _ => ?_) fun _ => keeps_ite (fun _ => ?_) fun _ => ?_
  · exact inv.grow (inv.agrees.askFails hself p acpptn E_DISWAI) inv.agrees inv.counts
  · exact inv.grow (inv.agrees.askFails hself p acpptn E_TMOUT) inv.agrees inv.counts
  · have hw := hself.wait_waiting tmout (s.porcb p).poratr
    have hacp : PorTcb.acpStatus { (s.tcb self).wait tmout (s.porcb p).poratr with
        wspec := .acp
        wid := p
        winfo := ⟨acpptn, msg, ((s.tcb self).wait tmout (s.porcb p).poratr).winfo.size⟩ } =
          some (p, acpptn) :=
      if_pos hw
    refine inv.grow ⟨⟨hnone, trivial⟩, rfl⟩ (inv.agrees.askInsert hnone hidle hacp hp) ?_
    exact inv.counts.same (setTcb_wrdvno (by rfl)) rfl fun u h => Or.inl h

theorem PorInv.tkAcpPor (inv : PorInv N s log) (hself : Running s self) (idOk ddsp : Bool)
    (prot : ER) (msg : ℕ) (tmout : ℤ) :
    Keeps N log (s.tkAcpPor self p idOk ddsp prot acpptn msg tmout) := by
  unfold PorState.tkAcpPor
  refine keeps_ite (fun _ => inv.refuse _) fun _ => keeps_ite (fun _ => inv.refuse _) fun _ =>
    keeps_ite (fun _ => inv.refuse _) fun _ => keeps_ite (fun _ => inv.refuse _) fun _ =>
    keeps_ite (fun _ => inv.refuse _) fun hp => keeps_ite (fun _ => inv.refuse _) fun _ => ?_
  cases hsearch : s.searchPtn acpptn (s.porcb p).call_queue with
  | some t =>
    obtain ⟨ht, hptn⟩ := searchPtn_some hsearch
    exact inv.acpMeet hself hp ht hptn msg
  | none => exact inv.acpWait hself hp msg tmout

end SmpTKernel
