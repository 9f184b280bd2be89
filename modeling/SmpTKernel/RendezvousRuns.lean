import SmpTKernel.RendezvousForward

/-!
# Runs of rendezvous

Tasks call, accept, forward and reply in any order, while ports and tasks come and go, waits time
out or are released and tasks wait for other things. The history of every run is right, so what is
said about right histories holds of it, and a number that is over is refused.
-/

namespace SmpTKernel

open History

/-! ## Operations -/

inductive PorOp
  | crePor (p : ℕ) (porid : BitVec 32) (poratr : ℕ) (maxcmsz maxrmsz : ℤ)
  | delPor (p : ℕ) (idOk indp : Bool) (prot : ER)
  | calPor (self : Tsk) (p : ℕ) (idOk ddsp : Bool) (prot : ER) (calptn : BitVec 32) (msg : ℕ)
      (cmsgsz tmout : ℤ)
  | acpPor (self : Tsk) (p : ℕ) (idOk ddsp : Bool) (prot : ER) (acpptn : BitVec 32) (msg : ℕ)
      (tmout : ℤ)
  | fwdPor (p : ℕ) (idOk indp : Bool) (prot protFwd : ER) (calptn rdvno : BitVec 32) (msg : ℕ)
      (cmsgsz : ℤ)
  | rplRdv (indp : Bool) (rdvno : BitVec 32) (msg : ℕ) (rmsgsz : ℤ)
  | timeout (t : Tsk)
  | relWai (t : Tsk) (idOk : Bool) (prot : ER)
  | disWai (t : Tsk) (waitmask : ℕ) (idOk parOk : Bool) (prot : ER)
  | enaWai (t : Tsk) (idOk : Bool) (prot : ER)
  | creTsk (t : Tsk) (domid : BitVec 32) (priority : ℕ)
  | delTsk (t : Tsk)
  | staTsk (t : Tsk)
  /-- A task exits, or is terminated. -/
  | endTask (t : Tsk)
  | susTsk (t : Tsk)
  | rsmTsk (t : Tsk)
  | chgPri (t : Tsk) (priority : ℕ)
  /-- A task begins to wait for something else, and it comes. -/
  | waitOther (t : Tsk) (tskwait wid : ℕ) (winfo : Winfo) (tmout : ℤ) (atr : ℕ)
  | wakeOther (t : Tsk)
  /-- A task writes to memory. -/
  | write (mem : Bytes)

namespace PorState

variable (s : PorState)

/-- What `tk_cre_tsk` sets. -/
def creTsk (t : Tsk) (domid : BitVec 32) (priority : ℕ) : PorState :=
  s.setTcb t { s.tcb t with
    state := .dormant
    priority := priority
    nodiswai := false
    waitmask := 0
    wrdvno := setDomid (s.tcb t).wrdvno domid }

/-- The task changes from one state into another. -/
def setState (t : Tsk) (state : TaskState) : PorState := s.setTcb t { s.tcb t with state := state }

def susTsk (t : Tsk) : PorState :=
  match (s.tcb t).state with
  | .ready => s.setState t .suspend
  | .wait => s.setState t .waitsus
  | _ => s

def rsmTsk (t : Tsk) : PorState :=
  match (s.tcb t).state with
  | .suspend => s.setState t .ready
  | .waitsus => s.setState t .wait
  | _ => s

def waitOther (t : Tsk) (tskwait wid : ℕ) (winfo : Winfo) (tmout : ℤ) (atr : ℕ) : PorState :=
  s.setTcb t { (s.tcb t).wait tmout atr with wspec := .other tskwait, wid := wid, winfo := winfo }

/-- A kernel with `maxTskid` tasks and domains up to `maxDomid`. -/
def exec (maxTskid maxDomid : ℕ) : PorOp → PorResult
  | .crePor p porid poratr maxcmsz maxrmsz => s.tkCrePor p porid poratr maxcmsz maxrmsz
  | .delPor p idOk indp prot => s.tkDelPor p idOk indp prot
  | .calPor self p idOk ddsp prot calptn msg cmsgsz tmout =>
    s.tkCalPor self p idOk ddsp prot calptn msg cmsgsz tmout
  | .acpPor self p idOk ddsp prot acpptn msg tmout =>
    s.tkAcpPor self p idOk ddsp prot acpptn msg tmout
  | .fwdPor p idOk indp prot protFwd calptn rdvno msg cmsgsz =>
    s.tkFwdPor maxTskid maxDomid p idOk indp prot protFwd calptn rdvno msg cmsgsz
  | .rplRdv indp rdvno msg rmsgsz => s.tkRplRdv maxTskid maxDomid indp rdvno msg rmsgsz
  | .timeout t => ((s.waitReleaseTmout t).1, (s.waitReleaseTmout t).2, none)
  | .relWai t idOk prot => s.tkRelWai t idOk prot
  | .disWai t waitmask idOk parOk prot => s.tkDisWai t waitmask idOk parOk prot
  | .enaWai t idOk prot => s.tkEnaWai t idOk prot
  | .creTsk t domid priority => (s.creTsk t domid priority, [], none)
  | .delTsk t => (s.setState t .nonexist, [], none)
  | .staTsk t => (s.setState t .ready, [], none)
  | .endTask t => ((s.endTask t).1, (s.endTask t).2, none)
  | .susTsk t => (s.susTsk t, [], none)
  | .rsmTsk t => (s.rsmTsk t, [], none)
  | .chgPri t priority => (s.changeTaskPriority t priority, [], none)
  | .waitOther t tskwait wid winfo tmout atr =>
    (s.waitOther t tskwait wid winfo tmout atr, [], none)
  | .wakeOther t => (s.waitRelease t, [], none)
  | .write mem => ({ s with mem := mem }, [], none)

/-- When an operation can come: a new port has a free control block and an identifier, only a task
that runs calls, accepts or waits, the timer only ends a wait in its queue, and tasks come and go in
their states. -/
def Legal (maxTskid : ℕ) : PorOp → Prop
  | .crePor p porid _ _ _ => (s.porcb p).porid = 0 ∧ porid ≠ 0
  | .calPor self _ _ _ _ _ _ _ _ => Running s self ∧ self < maxTskid
  | .acpPor self _ _ _ _ _ _ _ => Running s self
  | .timeout t => (s.tcb t).timed = true
  | .creTsk t _ _ => (s.tcb t).state = .nonexist
  | .delTsk t | .staTsk t => (s.tcb t).state = .dormant
  | .waitOther t _ _ _ _ _ => Running s t
  | .wakeOther t => (s.tcb t).waiting = true ∧ ∃ tskwait, (s.tcb t).wspec = .other tskwait
  | _ => True

/-- After `task_initialize` and `rendezvous_initialize`. -/
def boot (tcb : Tsk → PorTcb) (mem : Bytes) : PorState where
  porcb _ := ⟨[], 0, 0, [], 0, 0⟩
  tcb t := { tcb t with state := .nonexist, wrdvno := idTsk t, timed := false }
  mem := mem

end PorState

/-- The states that runs reach, with their histories. -/
inductive PorRun (maxTskid maxDomid : ℕ) : PorState → List PorEvent → Prop
  | boot (tcb : Tsk → PorTcb) (mem : Bytes) : PorRun maxTskid maxDomid (PorState.boot tcb mem) []
  | step {s : PorState} {log : List PorEvent} {op : PorOp} (run : PorRun maxTskid maxDomid s log)
      (legal : s.Legal maxTskid op) :
      PorRun maxTskid maxDomid (s.exec maxTskid maxDomid op).1
        (log ++ (s.exec maxTskid maxDomid op).2.1)

variable {N maxTskid maxDomid p : ℕ} {s s' : PorState} {v v' : PorView} {log evs : List PorEvent}
  {t u cal : Tsk} {tcb : PorTcb} {op : PorOp} {rdvno : BitVec 32}

/-! ## What ends a wait -/

theorem PorInv.setTcb (inv : PorInv N s log) (hagrees : Agrees (s.setTcb t tcb) (viewOf log))
    (hw : tcb.wrdvno = (s.tcb t).wrdvno) : PorInv N (s.setTcb t tcb) (log ++ []) :=
  inv.quiet hagrees (inv.counts.same (setTcb_wrdvno hw) rfl fun _ h => Or.inl h)

theorem PorInv.tkRelWai (inv : PorInv N s log) (t : Tsk) (idOk : Bool) (prot : ER) :
    Keeps N log (s.tkRelWai t idOk prot) := by
  unfold PorState.tkRelWai
  refine keeps_ite (fun _ => inv.refuse _) fun _ => keeps_ite (fun _ => inv.refuse _) fun _ =>
    keeps_ite (fun _ => inv.refuse _) fun _ => keeps_ite (fun _ => inv.refuse _) fun hw => ?_
  rw [Bool.not_eq_true', Bool.not_eq_false] at hw
  exact (inv.waitReleaseNg hw E_RLWAI).1

theorem PorInv.setWaitmask (inv : PorInv N s log) (t : Tsk) (waitmask : ℕ) :
    PorInv N (s.setTcb t { s.tcb t with waitmask := waitmask }) (log ++ []) :=
  inv.setTcb (inv.agrees.same rfl rfl (inv.agrees.timed t)) rfl

theorem PorInv.tkDisWai (inv : PorInv N s log) (t : Tsk) (waitmask : ℕ) (idOk parOk : Bool)
    (prot : ER) :
    Keeps N log (s.tkDisWai t waitmask idOk parOk prot) := by
  have hmask := inv.setWaitmask t waitmask
  unfold PorState.tkDisWai
  refine keeps_ite (fun _ => inv.refuse _) fun _ => keeps_ite (fun _ => inv.refuse _) fun _ =>
    keeps_ite (fun _ => inv.refuse _) fun _ => keeps_ite (fun _ => inv.refuse _) fun _ =>
    keeps_ite (fun _ => hmask) fun hw => keeps_ite (fun _ => ?_) fun _ => hmask
  rw [Bool.not_eq_true', Bool.not_eq_false] at hw
  have hw' : ((s.setTcb t { s.tcb t with waitmask := waitmask }).tcb t).waiting = true := by
    rw [setTcb_tcb_self]
    exact hw
  rw [List.append_nil] at hmask
  exact (hmask.waitReleaseNg hw' E_DISWAI).1

theorem PorInv.tkEnaWai (inv : PorInv N s log) (t : Tsk) (idOk : Bool) (prot : ER) :
    Keeps N log (s.tkEnaWai t idOk prot) := by
  unfold PorState.tkEnaWai
  exact keeps_ite (fun _ => inv.refuse _) fun _ => keeps_ite (fun _ => inv.refuse _) fun _ =>
    keeps_ite (fun _ => inv.refuse _) fun _ => inv.setWaitmask t 0

theorem endTask_waiting (hw : (s.tcb t).waiting = true) :
    ∃ tcb : PorTcb, (s.endTask t).1 = (s.waitRelease t).setTcb t tcb ∧ tcb.waiting = false ∧
      tcb.timed = false ∧
      tcb.wrdvno = (s.tcb t).wrdvno := by
  unfold PorState.endTask PorState.waitRelease
  rw [if_pos hw]
  dsimp only
  rw [setTcb_tcb_self, setTcb_setTcb]
  exact ⟨_, setTcb_setTcb.symm, rfl, rfl, rfl⟩

theorem PorInv.endTask (inv : PorInv N s log) (t : Tsk) :
    PorInv N (s.endTask t).1 (log ++ (s.endTask t).2) := by
  by_cases hw : (s.tcb t).waiting = true
  · have hends : (s.endTask t).2 = s.endEvents t none := if_pos hw
    obtain ⟨tcb, heq, hw', htimed, hwrdvno⟩ := endTask_waiting hw
    have hout : ((s.waitRelease t).tcb t).waiting = false := by
      unfold PorState.waitRelease
      rw [setTcb_tcb_self]
      exact PorTcb.release_not_waiting _
    have hnot : ((s.waitRelease t).tcb t).timed = false := by
      unfold PorState.waitRelease
      rw [setTcb_tcb_self]
      rfl
    have hcounts : Counts N (s.waitRelease t) ((viewOf log).release t) :=
      inv.counts.same (waitRelease_wrdvno s t) rfl fun u => release_ne_idle
    rw [hends, heq]
    refine inv.grow (inv.agrees.endEvents hw none) ?_ ?_
    · exact (inv.agrees.waitRelease t).idleTcb hout hw' (htimed.trans hnot.symm)
    · refine hcounts.same (setTcb_wrdvno ?_) rfl fun _ h => Or.inl h
      rw [waitRelease_wrdvno, hwrdvno]
  · rw [Bool.not_eq_true] at hw
    have hends : (s.endTask t).2 = [] := if_neg (by rw [hw]; exact Bool.false_ne_true)
    have heq :
        (s.endTask t).1 =
        s.setTcb t { s.tcb t with state := .dormant, waitmask := 0, nodiswai := false } := by
      unfold PorState.endTask
      rw [if_neg (by rw [hw]; exact Bool.false_ne_true)]
    rw [hends, heq]
    exact inv.setTcb (inv.agrees.idleTcb hw rfl rfl) rfl

/-! ## Tasks -/

theorem PorInv.setState (inv : PorInv N s log) (hw : (s.tcb t).waiting = false) {state : TaskState}
    (hw' : state ≠ .wait ∧ state ≠ .waitsus) : PorInv N (s.setState t state) (log ++ []) := by
  have hout : PorTcb.waiting { s.tcb t with state := state } = false :=
    decide_eq_false (not_or.mpr hw')
  exact inv.setTcb (inv.agrees.idleTcb hw hout rfl) rfl

/-- A task that waits keeps its wait when it is suspended or resumed. -/
theorem PorInv.setWaitState (inv : PorInv N s log) (hw : (s.tcb t).waiting = true)
    {state : TaskState} (hw' : state = .wait ∨ state = .waitsus) :
    PorInv N (s.setState t state) (log ++ []) := by
  have hin : PorTcb.waiting { s.tcb t with state := state } = true := decide_eq_true hw'
  refine inv.setTcb (inv.agrees.same ?_ ?_ fun _ => hin) rfl
  · unfold PorTcb.calStatus
    rw [if_pos hin, if_pos hw]
  · unfold PorTcb.acpStatus
    rw [if_pos hin, if_pos hw]

theorem not_waiting_of_state {state : TaskState} (h : (s.tcb t).state = state)
    (hout : state ≠ .wait ∧ state ≠ .waitsus) : (s.tcb t).waiting = false := by
  unfold PorTcb.waiting
  rw [h]
  exact decide_eq_false (not_or.mpr hout)

theorem waiting_of_state {state : TaskState} (h : (s.tcb t).state = state)
    (hin : state = .wait ∨ state = .waitsus) :
    (s.tcb t).waiting = true := by
  unfold PorTcb.waiting
  rw [h]
  exact decide_eq_true hin

theorem PorInv.susTsk (inv : PorInv N s log) (t : Tsk) : PorInv N (s.susTsk t) (log ++ []) := by
  unfold PorState.susTsk
  cases hst : (s.tcb t).state with
  | ready => exact inv.setState (not_waiting_of_state hst (by decide)) (by decide)
  | wait => exact inv.setWaitState (waiting_of_state hst (Or.inl rfl)) (Or.inr rfl)
  | _ => exact inv.refuse none

theorem PorInv.rsmTsk (inv : PorInv N s log) (t : Tsk) : PorInv N (s.rsmTsk t) (log ++ []) := by
  unfold PorState.rsmTsk
  cases hst : (s.tcb t).state with
  | suspend => exact inv.setState (not_waiting_of_state hst (by decide)) (by decide)
  | waitsus => exact inv.setWaitState (waiting_of_state hst (Or.inr rfl)) (Or.inl rfl)
  | _ => exact inv.refuse none

theorem PorInv.creTsk (inv : PorInv N s log) (hst : (s.tcb t).state = .nonexist) (domid : BitVec 32)
    (priority : ℕ) :
    PorInv N (s.creTsk t domid priority) (log ++ []) := by
  have hw := not_waiting_of_state hst (by decide)
  have hbits (i : ℕ) (hi : i < 16) := setDomid_getLsbD (s.tcb t).wrdvno domid hi
  refine inv.quiet (inv.agrees.idleTcb hw rfl rfl) ⟨fun u hu => ?_, fun u hu => ?_,
    inv.counts.callers⟩
  · unfold PorState.creTsk
    by_cases hut : u = t
    · subst hut
      rw [setTcb_tcb_self, rdvnoCount_congr hbits]
      exact inv.counts.number u hu
    · rw [setTcb_tcb_of_ne hut]
      exact inv.counts.number u hu
  · unfold PorState.creTsk
    by_cases hut : u = t
    · subst hut
      rw [setTcb_tcb_self, indexTsk_congr hbits]
      exact inv.counts.index u hu
    · rw [setTcb_tcb_of_ne hut]
      exact inv.counts.index u hu

theorem PorInv.waitOther (inv : PorInv N s log) (ht : Running s t) (tskwait wid : ℕ) (winfo : Winfo)
    (tmout : ℤ) (atr : ℕ) : PorInv N (s.waitOther t tskwait wid winfo tmout atr) (log ++ []) := by
  have hin : PorTcb.waiting { (s.tcb t).wait tmout atr with
      wspec := .other tskwait, wid := wid, winfo := winfo } = true :=
    ht.wait_waiting tmout atr
  refine inv.setTcb (inv.agrees.same ?_ ?_ fun _ => hin) rfl
  · rw [PorTcb.calStatus_of_not_waiting ht.not_waiting]
    exact if_pos hin
  · rw [PorTcb.acpStatus_of_not_waiting ht.not_waiting]
    exact if_pos hin

theorem PorInv.wakeOther (inv : PorInv N s log) (hw : (s.tcb t).waiting = true) {tskwait : ℕ}
    (hwspec : (s.tcb t).wspec = .other tskwait) : PorInv N (s.waitRelease t) (log ++ []) := by
  have hends : s.endEvents t none = [] := by
    unfold PorState.endEvents
    rw [hwspec]
  have hleads := inv.agrees.endEvents hw none
  rw [hends] at hleads
  refine inv.grow hleads (inv.agrees.waitRelease t) ?_
  exact inv.counts.same (waitRelease_wrdvno s t) rfl fun u => release_ne_idle

theorem PorInv.changeTaskPriority (inv : PorInv N s log) (t : Tsk) (priority : ℕ) :
    PorInv N (s.changeTaskPriority t priority) (log ++ []) := by
  have hset : PorInv N (s.setTcb t { s.tcb t with priority := priority }) (log ++ []) :=
    inv.setTcb (inv.agrees.same rfl rfl (inv.agrees.timed t)) rfl
  unfold PorState.changeTaskPriority
  dsimp only
  split_ifs with h
  · obtain ⟨hw, hwspec⟩ := h
    have hmem : t ∈ (s.porcb (s.tcb t).wid).call_queue := by
      rw [inv.agrees.call_queue]
      refine ⟨(s.tcb t).winfo.word, (s.tcb t).winfo.size, ?_⟩
      rw [inv.agrees.cal, calStatus_wspecCal hw (Or.inr hwspec)]
    have hperm := gcbChangePriority_perm
      (fun u => ((s.setTcb t { s.tcb t with priority := priority }).tcb u).priority) hmem
    refine ⟨hset.right, ?_, hset.counts.number, hset.counts.index, hset.counts.callers⟩
    refine hset.agrees.setPorcb (by exact hperm) (by rfl) ?_ ?_
    · exact hset.agrees.limits (s.tcb t).wid
    · intro hp
      rw [(inv.agrees.closed _ hp).1] at hmem
      exact absurd hmem List.not_mem_nil
  · exact hset

/-! ## Runs -/

theorem PorInv.exec (inv : PorInv N s log) (legal : s.Legal N op) :
    Keeps N log (s.exec N maxDomid op) := by
  cases op with
  | crePor p porid poratr maxcmsz maxrmsz =>
    exact inv.tkCrePor legal.1 legal.2 poratr maxcmsz maxrmsz
  | delPor p idOk indp prot => exact inv.tkDelPor idOk indp prot
  | calPor self p idOk ddsp prot calptn msg cmsgsz tmout =>
    exact inv.tkCalPor legal.1 legal.2 idOk ddsp prot msg tmout
  | acpPor self p idOk ddsp prot acpptn msg tmout =>
    exact inv.tkAcpPor legal idOk ddsp prot msg tmout
  | fwdPor p idOk indp prot protFwd calptn rdvno msg cmsgsz =>
    exact inv.tkFwdPor N maxDomid idOk indp prot protFwd msg
  | rplRdv indp rdvno msg rmsgsz => exact inv.tkRplRdv N maxDomid indp msg rmsgsz
  | timeout t => exact (inv.waitReleaseNg (inv.agrees.timed t legal) E_TMOUT).1
  | relWai t idOk prot => exact inv.tkRelWai t idOk prot
  | disWai t waitmask idOk parOk prot => exact inv.tkDisWai t waitmask idOk parOk prot
  | enaWai t idOk prot => exact inv.tkEnaWai t idOk prot
  | creTsk t domid priority => exact inv.creTsk legal domid priority
  | delTsk t => exact inv.setState (not_waiting_of_state legal (by decide)) (by decide)
  | staTsk t => exact inv.setState (not_waiting_of_state legal (by decide)) (by decide)
  | endTask t => exact inv.endTask t
  | susTsk t => exact inv.susTsk t
  | rsmTsk t => exact inv.rsmTsk t
  | chgPri t priority => exact inv.changeTaskPriority t priority
  | waitOther t tskwait wid winfo tmout atr => exact inv.waitOther legal tskwait wid winfo tmout atr
  | wakeOther t =>
    obtain ⟨tskwait, hwspec⟩ := legal.2
    exact inv.wakeOther legal.1 hwspec
  | write mem =>
    have h := inv.agrees
    have hagrees : Agrees { s with mem := mem } (viewOf log) :=
      ⟨h.cal, h.acp, h.call_queue, h.accept_queue, h.call_nodup, h.accept_nodup, h.limits, h.closed,
        h.fits, h.timed⟩
    exact inv.quiet hagrees ⟨inv.counts.number, inv.counts.index, inv.counts.callers⟩

theorem PorInv.boot (hN : N < 4096) (tcb : Tsk → PorTcb) (mem : Bytes) :
    PorInv N (PorState.boot tcb mem) [] := by
  have hout (t : Tsk) : ((PorState.boot tcb mem).tcb t).waiting = false := rfl
  refine ⟨right_nil, ⟨fun t => ?_, fun t => ?_, fun p t => ?_, fun p t => ?_, fun p =>
    List.nodup_nil, fun p => List.nodup_nil, fun p hp => absurd rfl hp, fun p _ =>
      ⟨rfl, rfl⟩, fun t p calptn cmsgsz h => ?_,
    fun t h => ?_⟩, ⟨fun t ht => ?_, fun t ht => ?_, fun t h => absurd rfl h⟩⟩
  · exact (PorTcb.calStatus_of_not_waiting (hout t)).symm
  · exact (PorTcb.acpStatus_of_not_waiting (hout t)).symm
  · exact iff_of_false List.not_mem_nil fun ⟨_, _, h⟩ => CalStatus.noConfusion h
  · exact iff_of_false List.not_mem_nil fun ⟨_, h⟩ => Option.some_ne_none _ h.symm
  · exact CalStatus.noConfusion h
  · exact absurd h Bool.false_ne_true
  · exact rdvnoCount_idTsk (by omega)
  · exact indexTsk_idTsk (by omega)

theorem PorRun.inv (hN : N < 4096) (run : PorRun N maxDomid s log) : PorInv N s log := by
  induction run with
  | boot tcb mem => exact PorInv.boot hN tcb mem
  | step run legal ih => exact ih.exec legal

/-! ## Numbers that are over -/

theorem PorView.Allows.index {e : PorEvent} (h : v.Allows e) (he : e.accepted = some (t, rdvno)) :
    indexTsk (getTskidRdvno rdvno) = t := by
  cases e with
  | accepts a acpptn u p calptn r cmsgsz =>
    obtain ⟨rfl, rfl⟩ := Prod.mk.inj (Option.some.inj he)
    exact h.2.2.2.2.1
  | _ => exact absurd he.symm (Option.some_ne_none _)

theorem PorInv.notRdv (inv : PorInv N s log) {a b : List PorEvent} {e : PorEvent}
    (hlog : log = a ++ e :: b) (he : e.accepted = some (t, rdvno)) (hover : ∃ x ∈ b, x.Ends t)
    (hfew : acceptsOf t b < 16) :
    PorState.notRdv rdvno (s.tcb (indexTsk (getTskidRdvno rdvno))) := by
  by_contra hrdv
  obtain ⟨hmet, -⟩ := inv.agrees.met hrdv
  rw [(inv.right a e b hlog).index he] at hmet
  exact not_met_of_over inv.right hlog he hover hfew _ hmet

/-- A reply or forward is refused with an error, and nothing else happens. The error is `E_OBJ` if
what is checked before the number is right. -/
def Refused (s : PorState) (checked : Prop) (r : PorResult) : Prop :=
  ∃ ercd, r = (s, [], some ercd) ∧ ercd ≠ E_OK ∧ (checked → ercd = E_OBJ)

theorem refused_ite {checked c : Prop} [Decidable c] {ercd : ER} {r : PorResult}
    (hercd : c → ercd ≠ E_OK) (hchecked : c → checked → ercd = E_OBJ)
    (hr : ¬c → Refused s checked r) :
    Refused s checked (if c then (s, [], some ercd) else r) := by
  split_ifs with h
  · exact ⟨ercd, rfl, hercd h, hchecked h⟩
  · exact hr h

theorem refused_notRdv {checked : Prop} {r : PorResult} (h : PorState.notRdv rdvno tcb) :
    Refused s checked (if PorState.notRdv rdvno tcb then (s, [], some E_OBJ) else r) := by
  rw [if_pos h]
  exact ⟨E_OBJ, rfl, by decide, fun _ => rfl⟩

/-- The checks of a reply that come before that of the number. -/
def RplChecked (indp : Bool) (rmsgsz : ℤ) : Prop := 0 ≤ rmsgsz ∧ indp = false

theorem tkRplRdv_notRdv (h : PorState.notRdv rdvno (s.tcb (indexTsk (getTskidRdvno rdvno))))
    (indp : Bool) (msg : ℕ) (rmsgsz : ℤ) :
    Refused s (RplChecked indp rmsgsz) (s.tkRplRdv maxTskid maxDomid indp rdvno msg rmsgsz) := by
  unfold PorState.tkRplRdv
  apply refused_ite (fun _ => by decide) fun _ _ => rfl
  intro _
  apply refused_ite (fun _ => by decide) fun hsz hc => absurd hc.1 hsz
  intro _
  apply refused_ite (fun _ => by decide) fun hindp hc =>
    absurd (hc.2.symm.trans hindp) Bool.false_ne_true
  exact fun _ => refused_notRdv h

/-- The checks of a forward that come before that of the number. -/
structure FwdChecked (s : PorState) (p : ℕ) (idOk indp : Bool) (prot protFwd : ER)
    (calptn : BitVec 32) (cmsgsz : ℤ) : Prop where
  inRange : idOk = true
  pattern : calptn ≠ 0
  size : 0 ≤ cmsgsz
  task : indp = false
  created : (s.porcb p).porid ≠ 0
  port : prot = E_OK
  caller : protFwd = E_OK
  fits : cmsgsz ≤ (s.porcb p).maxcmsz

theorem tkFwdPor_notRdv (h : PorState.notRdv rdvno (s.tcb (indexTsk (getTskidRdvno rdvno)))) (p : ℕ)
    (idOk indp : Bool) (prot protFwd : ER) (calptn : BitVec 32) (msg : ℕ) (cmsgsz : ℤ) :
    Refused s (FwdChecked s p idOk indp prot protFwd calptn cmsgsz)
      (s.tkFwdPor maxTskid maxDomid p idOk indp prot protFwd calptn rdvno msg cmsgsz) := by
  unfold PorState.tkFwdPor
  apply refused_ite (fun _ => by decide)
  · intro hid hc
    rw [hc.inRange] at hid
    exact absurd hid Bool.false_ne_true
  intro _
  apply refused_ite (fun _ => by decide) fun hptn hc => absurd hptn hc.pattern
  intro _
  apply refused_ite (fun _ => by decide) fun _ _ => rfl
  intro _
  apply refused_ite (fun _ => by decide) fun hsz hc => absurd hc.size hsz
  intro _
  apply refused_ite (fun _ => by decide) fun hindp hc =>
    absurd (hc.task.symm.trans hindp) Bool.false_ne_true
  intro _
  apply refused_ite (fun _ => by decide) fun hp hc => absurd hp hc.created
  intro _
  apply refused_ite id fun hprot hc => absurd hc.port hprot
  intro _
  apply refused_ite id fun hprot hc => absurd hc.caller hprot
  intro _
  apply refused_ite (fun _ => by decide) fun hmax hc => absurd hc.fits (not_le.mpr hmax)
  exact fun _ => refused_notRdv h

/-! ## Replies and their callers -/

/-- The reply is in the buffer of `t`, which does not wait any more; other tasks see nothing of
it. -/
structure Delivers (s s' : PorState) (t : Tsk) (msg : ℕ) (rmsgsz : ℤ) : Prop where
  fits : rmsgsz ≤ (s.tcb t).winfo.size
  released : (s'.tcb t).waiting = false
  frame : ∀ u, u ≠ t → s'.tcb u = s.tcb u
  copied : ∀ i : ℕ, i < rmsgsz → s'.mem ((s.tcb t).winfo.msg + i) = s.mem (msg + i)

theorem ite_ok {c : Prop} [Decidable c] {ercd : ER} {r : PorResult} (hercd : ercd ≠ E_OK)
    (h : (if c then (s, [], some ercd) else r).2.2 = some E_OK) :
    ¬c ∧ (if c then (s, [], some ercd) else r) = r := by
  split_ifs at h ⊢ with hc
  · exact absurd (Option.some.inj h) hercd
  · exact ⟨hc, rfl⟩

theorem memcpy_mem (s : PorState) (dst src : ℕ) {n : ℤ} {i : ℕ} (hi : i < n) :
    (s.memcpy dst src n).mem (dst + i) = s.mem (src + i) := by
  have hin : dst ≤ dst + i ∧ ((dst + i : ℕ) - dst : ℤ) < n := by omega
  have hsub : dst + i - dst = i := Nat.add_sub_cancel_left dst i
  unfold PorState.memcpy
  dsimp only
  rw [if_pos hin, hsub]

theorem tkRplRdv_ok {indp : Bool} {msg : ℕ} {rmsgsz : ℤ}
    (h : (s.tkRplRdv maxTskid maxDomid indp rdvno msg rmsgsz).2.2 = some E_OK) :
    (s.tkRplRdv maxTskid maxDomid indp rdvno msg rmsgsz).2.1 =
    [.replies rdvno (indexTsk (getTskidRdvno rdvno)) rmsgsz] ∧
      Delivers s (s.tkRplRdv maxTskid maxDomid indp rdvno msg rmsgsz).1
        (indexTsk (getTskidRdvno rdvno)) msg rmsgsz := by
  unfold PorState.tkRplRdv at h ⊢
  obtain ⟨-, hrdvno⟩ := ite_ok (by decide) h
  rw [hrdvno] at h ⊢
  obtain ⟨-, hpar⟩ := ite_ok (by decide) h
  rw [hpar] at h ⊢
  obtain ⟨-, hctx⟩ := ite_ok (by decide) h
  rw [hctx] at h ⊢
  obtain ⟨-, hobj⟩ := ite_ok (by decide) h
  dsimp only at h ⊢
  rw [hobj] at h ⊢
  obtain ⟨hsz, hmax⟩ := ite_ok (by decide) h
  rw [hmax]
  refine ⟨rfl, not_lt.mp hsz, ?_, fun u hu => setTcb_tcb_of_ne hu, fun i hi =>
    memcpy_mem s _ msg hi⟩
  unfold PorState.waitRelease
  rw [setTcb_tcb_self]
  exact PorTcb.release_not_waiting _

/-- **Rendezvous.** In every run every event is allowed where it stands: an acceptance joins a
caller and an acceptor at one port whose patterns meet, and copies no more than the sizes allow. A
number is consumed once for each acceptance that returned it, for the caller it was returned for; a
reply that succeeds goes to this caller and to nobody else; and a number that is over is refused. -/
theorem porRun_protocol (hN : N < 4096) (run : PorRun N maxDomid s log) :
    Right AllowedAfter log ∧
    (∀ a e b t rdvno, log = a ++ e :: b → e.consumed = some (t, rdvno) →
      ∃ a₁ x a₂, a = a₁ ++ x :: a₂ ∧ x.accepted = some (t, rdvno) ∧ ∀ y ∈ a₂, ¬y.Ends t) ∧
    (∀ a e b e' c t rdvno rdvno', log = a ++ e :: (b ++ e' :: c) → e.consumed = some (t, rdvno) →
      e'.consumed = some (t, rdvno') → ∃ x ∈ b, x.accepted = some (t, rdvno')) ∧
    (∀ indp rdvno msg rmsgsz, (s.tkRplRdv N maxDomid indp rdvno msg rmsgsz).2.2 = some E_OK →
      ∃ t a x b, log = a ++ x :: b ∧ x.accepted = some (t, rdvno) ∧ (∀ y ∈ b, ¬y.Ends t) ∧
        Delivers s (s.tkRplRdv N maxDomid indp rdvno msg rmsgsz).1 t msg rmsgsz) ∧
    ∀ a e b t rdvno, log = a ++ e :: b → e.accepted = some (t, rdvno) → (∃ x ∈ b, x.Ends t) →
      acceptsOf t b < 16 →
      (∀ indp msg rmsgsz, Refused s (RplChecked indp rmsgsz)
        (s.tkRplRdv N maxDomid indp rdvno msg rmsgsz)) ∧
      ∀ p idOk indp prot protFwd calptn msg cmsgsz,
        Refused s (FwdChecked s p idOk indp prot protFwd calptn cmsgsz)
          (s.tkFwdPor N maxDomid p idOk indp prot protFwd calptn rdvno msg cmsgsz) := by
  have inv := run.inv hN
  refine ⟨inv.right, fun a e b t rdvno hlog he => consumed_accepted inv.right hlog he,
    fun a e b e' c t rdvno rdvno' hlog he he' => consumed_once inv.right hlog he he',
    fun indp rdvno msg rmsgsz hok => ?_, fun a e b t rdvno hlog he hover hfew => ?_⟩
  · obtain ⟨hevs, hdelivers⟩ := tkRplRdv_ok hok
    have hright := (@PorInv.tkRplRdv N s log rdvno inv N maxDomid indp msg rmsgsz).right
    rw [hevs] at hright
    obtain ⟨a, x, b, hlog, hx, hnot⟩ := consumed_accepted hright rfl rfl
    exact ⟨_, a, x, b, hlog, hx, hnot, hdelivers⟩
  · have hnot := inv.notRdv hlog he hover hfew
    exact ⟨tkRplRdv_notRdv hnot, tkFwdPor_notRdv hnot⟩

theorem PorRun.next (run : PorRun N maxDomid s log) (op : PorOp) (evs : List PorEvent)
    (legal : s.Legal N op) (hevs : (s.exec N maxDomid op).2.1 = evs) :
    PorRun N maxDomid (s.exec N maxDomid op).1 (log ++ evs) :=
  hevs ▸ run.step legal

/-- A call waits, is accepted under the number `0x01010001`, and is replied to. The number is
refused then. -/
theorem porRun_protocol_reply :
    ∃ s : PorState, PorRun 2 1 s [.creates 0 8 8, .calls 0 0 3 4, .asks 1 0 1,
      .accepts 1 1 0 0 3 0x01010001 4, .replies 0x01010001 0 8] ∧
    Refused s (RplChecked false 8) (s.tkRplRdv 2 1 false 0x01010001 0 8) := by
  have run := @PorRun.boot 2 1 (fun _ => ⟨.nonexist, 1, .other 0, 0, false, 0, ⟨0, 0, 0⟩, 0, false⟩)
    fun _ => 0
  have run := run.next (.creTsk 0 1 1) [] rfl rfl
  have run := run.next (.creTsk 1 1 1) [] rfl rfl
  have run := run.next (.staTsk 0) [] rfl rfl
  have run := run.next (.staTsk 1) [] rfl rfl
  have run := run.next (.crePor 0 1 0 8 8) [.creates 0 8 8] ⟨rfl, by decide⟩ rfl
  have run :=
    run.next (.calPor 0 0 true false E_OK 3 100 4 TMO_FEVR) [.calls 0 0 3 4] ⟨Or.inl rfl, by
      decide⟩ rfl
  have run := run.next (.acpPor 1 0 true false E_OK 1 200 TMO_FEVR)
    [.asks 1 0 1, .accepts 1 1 0 0 3 0x01010001 4] (Or.inl rfl) rfl
  have run := run.next (.rplRdv false 0x01010001 300 8) [.replies 0x01010001 0 8] trivial rfl
  obtain ⟨-, -, -, -, hover⟩ := porRun_protocol (by decide) run
  have hends : PorEvent.Ends 0 (.replies 0x01010001 0 8) := Or.inl ⟨0x01010001, rfl⟩
  obtain ⟨hreply, -⟩ :=
    hover [.creates 0 8 8, .calls 0 0 3 4, .asks 1 0 1] (.accepts 1 1 0 0 3 0x01010001 4)
    [.replies 0x01010001 0 8] 0 0x01010001 rfl rfl ⟨_, List.mem_singleton_self _, hends⟩ (by decide)
  exact ⟨_, run, hreply false 0 8⟩

end SmpTKernel
