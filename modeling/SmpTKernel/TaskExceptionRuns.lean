import SmpTKernel.TaskExceptionInv

/-!
# Runs of task exceptions

Tasks raise exceptions for each other, call extended SVCs and subsystem functions, define, enable
and disable their exceptions and come back to user level, in any order. Whatever they do, the words
of every control block are the summary of its history, and an exception that may start is on its
way.
-/

namespace SmpTKernel

/-! ## Histories of the system -/

/-- The history of `t` goes on. -/
def texLog (log : Tsk → List TexEvent) (t : Tsk) (events : List TexEvent) : Tsk → List TexEvent :=
  Function.update log t (log t ++ events)

/-- What an operation writes in the histories, from the state before it. -/
def TexOp.note (s : TexSys) (log : Tsk → List TexEvent) : TexOp → Tsk → List TexEvent
  | ext (.step prid prot) =>
    match s.ext.raising prid with
    | some (t, texcd) => texLog log t ((s.ext.tcb t).rasNotes (s.ext.locks.state t) prot texcd)
    | none => log
  | ext (.cre t _) => Function.update log t []
  | ext _ | ssy _ => log
  | defTex t prot texhdr =>
    texLog log t ((s.ext.tcb t).defNotes (s.ext.locks.state t) prot (s.isysmode t ≠ 0) texhdr)
  | setMask t prot texmsk enable =>
    texLog log t ((s.ext.tcb t).maskNotes (s.ext.locks.state t) prot texmsk enable)
  | endTex prid ddsp enatex =>
    match s.ext.locks.ctxtsk prid with
    | some t => texLog log t ((s.ext.tcb t).endNotes ddsp enatex)
    | none => log
  | dct prid =>
    match s.ext.locks.ctxtsk prid with
    | some t => texLog log t ((s.ext.tcb t).setupTexhdr.1.map TexEvent.started).toList
    | none => log

/-- Runs from the start of the system, with the history of every task since it was created. -/
inductive TexRun (numProc maxSsyid : ℕ) : TexSys → (Tsk → List TexEvent) → Prop
  | start (locklist : Lock → Option Lock) (tcb : Tsk → TexBlock) (isysmode : Tsk → BitVec 16) :
    TexRun numProc maxSsyid (TexSys.start locklist tcb isysmode) fun _ => []
  | step {s s' : TexSys} {log : Tsk → List TexEvent} (op : TexOp) : TexRun numProc maxSsyid s log →
      op.Legal numProc s → op.FromHandler s → op.exec numProc maxSsyid s = some s' →
      TexRun numProc maxSsyid s' (op.note s log)

/-- The tasks that exist are right; the others have no calls. -/
structure TexSysInv (s : TexSys) (log : Tsk → List TexEvent) : Prop where
  tasks : ∀ t, s.ext.locks.state t ≠ .nonexist →
    TexInv (s.ext.tcb t) (s.reqdct t) (s.isysmode t) (s.ext.calls t) (log t)
  absent : ∀ t, s.ext.locks.state t = .nonexist → s.ext.calls t = []

/-! ## Steps -/

section Steps

variable {s s' : TexSys} {log log' : Tsk → List TexEvent} {t u : Tsk} {ext : ExtSvc}
  {prid numProc maxSsyid : ℕ} {calls : List Frame}

/-- What there is about one task. -/
def TexSys.task (s : TexSys) (log : Tsk → List TexEvent) (t : Tsk) :
    TexBlock × Bool × BitVec 16 × List Frame × List TexEvent :=
  (s.ext.tcb t, s.reqdct t, s.isysmode t, s.ext.calls t, log t)

theorem TexSysInv.change (h : TexSysInv s log) (t : Tsk)
    (hstate : ∀ u ≠ t, s'.ext.locks.state u = .nonexist ↔ s.ext.locks.state u = .nonexist)
    (hother : ∀ u ≠ t, s'.task log' u = s.task log u)
    (hself : s'.ext.locks.state t ≠ .nonexist →
      TexInv (s'.ext.tcb t) (s'.reqdct t) (s'.isysmode t) (s'.ext.calls t) (log' t))
    (hnone : s'.ext.locks.state t = .nonexist → s'.ext.calls t = []) : TexSysInv s' log' := by
  refine ⟨fun u hu => ?_, fun u hu => ?_⟩
  · by_cases hut : u = t
    · exact hut ▸ hself (hut ▸ hu)
    · have heq := hother u hut
      simp only [TexSys.task, Prod.mk.injEq] at heq
      obtain ⟨htcb, hreq, hmode, hcalls, hlog⟩ := heq
      rw [htcb, hreq, hmode, hcalls, hlog]
      exact h.tasks u ((hstate u hut).not.mp hu)
  · by_cases hut : u = t
    · exact hut ▸ hnone (hut ▸ hu)
    · have heq := hother u hut
      simp only [TexSys.task, Prod.mk.injEq] at heq
      exact heq.2.2.2.1.trans (h.absent u ((hstate u hut).mp hu))

/-- The control block of a task, its request and its history change. -/
theorem TexSysInv.update (h : TexSysInv s log) (t : Tsk) {tcb : TexBlock} (reqdct : Bool)
    {events : List TexEvent} (hinv : s.ext.locks.state t ≠ .nonexist →
      TexInv tcb reqdct (s.isysmode t) (s.ext.calls t) (log t ++ events)) :
    TexSysInv { s.setTcb t tcb with reqdct := Function.update s.reqdct t reqdct }
      (texLog log t events) := by
  refine h.change t (fun _ _ => Iff.rfl) (fun u hu => ?_) (fun hex => ?_) (h.absent t)
  · simp [TexSys.task, TexSys.setTcb, ExtSvc.setTcb, texLog, hu]
  · simpa [TexSys.setTcb, ExtSvc.setTcb, texLog] using hinv hex

theorem TexSysInv.setTcb (h : TexSysInv s log) (t : Tsk) (tcb : TexBlock)
    (hinv : s.ext.locks.state t ≠ .nonexist → TexInv tcb (s.reqdct t) (s.isysmode t) (s.ext.calls t)
      (log t)) :
    TexSysInv (s.setTcb t tcb) log := by
  refine h.change t (fun _ _ => Iff.rfl) (fun u hu => ?_) (fun hex => ?_) (h.absent t)
  · simp [TexSys.task, TexSys.setTcb, ExtSvc.setTcb, hu]
  · simpa [TexSys.setTcb, ExtSvc.setTcb] using hinv hex

theorem TexSysInv.setCalls (h : TexSysInv s log) (hex : s.ext.locks.state t ≠ .nonexist)
    {locks : SvcState} (hl : locks.state = s.ext.locks.state)
    (hinv : TexInv (s.ext.tcb t) (s.reqdct t) (s.isysmode t) calls (log t)) :
    TexSysInv { s with
      ext := { s.ext with locks := locks, calls := Function.update s.ext.calls t calls } } log := by
  refine h.change t (fun _ _ => by rw [hl]) (fun u hu => ?_) (fun _ => ?_) fun hno =>
    absurd (hl ▸ hno) hex
  · simp [TexSys.task, hu]
  · simpa using hinv

theorem TexSysInv.goOn (h : TexSysInv s log) (hex : s.ext.locks.state t ≠ .nonexist)
    {locks : SvcState} (hl : locks.state = s.ext.locks.state)
    (hw : calls.filterMap Frame.exectex = (s.ext.calls t).filterMap Frame.exectex)
    (hf : calls.filterMap Frame.texflg = (s.ext.calls t).filterMap Frame.texflg) :
    TexSysInv { s with
      ext := { s.ext with locks := locks, calls := Function.update s.ext.calls t calls } } log := by
  have hwords : texWords (s.ext.tcb t) calls = texWords (s.ext.tcb t) (s.ext.calls t) := by
    rw [texWords, texWords, hw]
  refine h.setCalls hex hl ((h.tasks t hex).goOn (fun w hmem => hwords ▸ hmem)
    (fun w hmem c hc => ?_) fun f hmem => ?_)
  · exact ⟨w, hwords ▸ hmem, hc⟩
  · exact Or.inl (hf ▸ hmem)

/-! ### Locks -/

theorem lockSvc_state {s : SvcState} {loc : Lock} {r : Bool × SvcState}
    (h : s.lockSvc prid loc = some r) :
    r.2.state = s.state := by
  unfold SvcState.lockSvc at h
  obtain ⟨t, -, rfl⟩ := Option.map_eq_some_iff.mp h
  split_ifs
  · rfl
  · rfl
  · exact (leaveLockQueue_frame s t).2.1

theorem passLock_state {s s' : SvcState} {loc : Lock} (h : s.passLock loc = some s') :
    s'.state = s.state := by
  unfold SvcState.passLock at h
  obtain ⟨queue, -, rfl⟩ := Option.map_eq_some_iff.mp h
  cases queue <;> rfl

theorem unlockSvc_state {s s' : SvcState} (h : s.unlockSvc prid = some s') :
    s'.state = s.state := by
  unfold SvcState.unlockSvc at h
  obtain ⟨t, -, h⟩ := Option.bind_eq_some_iff.mp h
  obtain ⟨loc, -, h⟩ := Option.bind_eq_some_iff.mp h
  unfold SvcState.releaseLock at h
  exact (passLock_state h).trans rfl

theorem TexSysInv.lockThen (h : TexSysInv s log) (hex : s.ext.locks.state t ≠ .nonexist)
    {loc : Lock} (heq : s.ext.lockThen prid t loc calls = some ext)
    (hw : calls.filterMap Frame.exectex = (s.ext.calls t).filterMap Frame.exectex)
    (hf : calls.filterMap Frame.texflg = (s.ext.calls t).filterMap Frame.texflg) :
    TexSysInv { s with ext := ext } log := by
  obtain ⟨r, hr, rfl⟩ := Option.map_eq_some_iff.mp heq
  by_cases hgot : r.1 = true
  · rw [if_pos hgot]
    exact h.goOn hex (lockSvc_state hr) hw hf
  · rw [if_neg hgot]
    exact h.goOn hex (lockSvc_state hr) rfl rfl

theorem TexSysInv.unlockThen (h : TexSysInv s log) (hex : s.ext.locks.state t ≠ .nonexist)
    (heq : s.ext.unlockThen prid t calls = some ext)
    (hw : calls.filterMap Frame.exectex = (s.ext.calls t).filterMap Frame.exectex)
    (hf : calls.filterMap Frame.texflg = (s.ext.calls t).filterMap Frame.texflg) :
    TexSysInv { s with ext := ext } log := by
  obtain ⟨locks, hlocks, rfl⟩ := Option.map_eq_some_iff.mp heq
  exact h.goOn hex (unlockSvc_state hlocks) hw hf

/-! ### Requests -/

/-- `request_tex` does what it is to do for a task that is not of protection level 0. -/
theorem request_eq (s : TexSys) {b : Bool} (h : b = true → s.isysmode t = 0) :
    (if b = true then s.requestTex t else s) = { s with
      reqdct := Function.update s.reqdct t (s.reqdct t || b) } := by
  cases b with
  | true =>
    rw [if_pos rfl, TexSys.requestTex, if_pos (h rfl), Bool.or_true]
  | false =>
    rw [if_neg Bool.false_ne_true, Bool.or_false, Function.update_eq_self]

/-- An exception is raised only for a task with a handler. -/
theorem TexSysInv.raise_user (h : TexSysInv s log) (prot : ER) (texcd : ℤ)
    (hreq : (s.raise prot u texcd).1.2 = true) :
    s.isysmode u = 0 := by
  by_cases htakes : (s.ext.tcb u).Takes (s.ext.locks.state u) prot
  · exact (h.tasks u htakes.1).user htakes.2.2.1
  · exact absurd (((s.ext.tcb u).raise_of_not_takes texcd htakes).1.symm.trans hreq)
      Bool.noConfusion

theorem TexSysInv.end_user (h : TexSysInv s log) (hex : s.ext.locks.state t ≠ .nonexist)
    (ddsp enatex : Bool) (hreq : ((s.ext.tcb t).tkEndTex ddsp enatex).1.2 = true) :
    s.isysmode t = 0 := by
  have inv := h.tasks t hex
  apply inv.user
  by_contra hno
  rw [Bool.not_eq_true] at hno
  rcases (s.ext.tcb t).endCode_spec with ⟨hzero, -⟩ | ⟨-, hset, -⟩
  · unfold TexBlock.tkEndTex TexBlock.endTex at hreq
    split_ifs at hreq
    simp [hzero] at hreq
  · have hmask := inv.mask _ hset
    rw [inv.hdr hno] at hmask
    simp at hmask

/-! ### The operations -/

/-- The first critical section of `call_brkhdr` for `u`, called by `t`. -/
theorem callBrkhdr_cases (s : ExtSvc) (t u : Tsk) :
    let ran := s.setTcb u { s.tcb u with execssid := (s.tcb u).execssid ||| BREAK_RAN }
    s.callBrkhdr t u = (none, s) ∨ s.callBrkhdr t u = (none, ran) ∨
      s.callBrkhdr t u = (some (ran.tcb t).texflg, ran.setTcb t { ran.tcb t with
        texflg := (ran.tcb t).texflg ||| SSFN_RUNNING
        sysmode := (ran.tcb t).sysmode + 1 }) := by
  intro ran
  unfold ExtSvc.callBrkhdr
  by_cases hfn : (s.tcb u).texflg &&& SSFN_RUNNING ≠ 0
  · exact Or.inl (if_pos hfn)
  rw [if_neg hfn]
  by_cases hno : ¬((s.tcb u).exectex ≠ 0 ∧ (s.tcb u).execssid.toInt > 0)
  · exact Or.inl (if_pos hno)
  rw [if_neg hno]
  by_cases hbrk : (!s.breakfn (s.tcb u).execssid) = true
  · exact Or.inr (Or.inl (if_pos hbrk))
  · exact Or.inr (Or.inr (if_neg hbrk))

/-- A subsystem function is called, and `texflg` put aside. -/
theorem TexSysInv.callFn (h : TexSysInv s log) (hex : s.ext.locks.state t ≠ .nonexist)
    (hw : calls.filterMap Frame.exectex = (s.ext.calls t).filterMap Frame.exectex)
    (hf : calls.filterMap Frame.texflg = (s.ext.tcb t).texflg :: (s.ext.calls t).filterMap
      Frame.texflg) :
    TexSysInv ((s.setTcb t { s.ext.tcb t with
      texflg := (s.ext.tcb t).texflg ||| SSFN_RUNNING
      sysmode := (s.ext.tcb t).sysmode + 1 }).setCalls t calls) log := by
  have hbit (x : BitVec 16) (i : ℕ) (hi : i < 2) :
      (x ||| SSFN_RUNNING).getLsbD i = x.getLsbD i := by
    rw [BitVec.getLsbD_or, show SSFN_RUNNING = BitVec.twoPow 16 2 from rfl, BitVec.getLsbD_twoPow]
    simp [show (2 : ℕ) ≠ i by omega]
  have htcb := h.setTcb t { s.ext.tcb t with
      texflg := (s.ext.tcb t).texflg ||| SSFN_RUNNING
      sysmode := (s.ext.tcb t).sysmode + 1 } fun ht =>
    (h.tasks t ht).congr rfl rfl (fun _ => rfl) rfl (hbit _ 0 (by omega)) (hbit _ 1 (by omega))
  have hcalls : (s.setTcb t { s.ext.tcb t with
      texflg := (s.ext.tcb t).texflg ||| SSFN_RUNNING
      sysmode := (s.ext.tcb t).sysmode + 1 }).ext.tcb t = { s.ext.tcb t with
      texflg := (s.ext.tcb t).texflg ||| SSFN_RUNNING
      sysmode := (s.ext.tcb t).sysmode + 1 } := Function.update_self ..
  refine htcb.setCalls hex rfl ((htcb.tasks t hex).goOn (fun w hmem => ?_) (fun w hmem c hc =>
    ⟨w, ?_, hc⟩) fun f hmem => ?_)
  · rw [texWords, hw] at hmem
    exact hmem
  · rw [texWords, hw]
    exact hmem
  · rw [hf] at hmem
    rcases List.mem_cons.mp hmem with rfl | hmem
    · rw [hcalls]
      exact Or.inr ⟨(hbit _ 0 (by omega)).symm, (hbit _ 1 (by omega)).symm⟩
    · exact Or.inl hmem

theorem after_step_of_not_raising (log : Tsk → List TexEvent) (ext : ExtSvc) (prot : ER)
    (h : s.ext.raising prid = none) :
    s.after ext (.step prid prot) = { s with ext := ext } ∧
      (TexOp.ext (.step prid prot)).note s log = log := by
  unfold TexSys.after TexOp.note
  dsimp only
  rw [h]
  exact ⟨rfl, rfl⟩

theorem TexSysInv.raise (h : TexSysInv s log) (prot : ER) (u : Tsk) (texcd : ℤ) :
    TexSysInv { s.setTcb u (s.raise prot u texcd).2 with
        reqdct := Function.update s.reqdct u (s.reqdct u || (s.raise prot u texcd).1.2) }
      (texLog log u ((s.ext.tcb u).rasNotes (s.ext.locks.state u) prot texcd)) :=
  h.update u _ fun hu => (h.tasks u hu).raise _ prot texcd

theorem TexSysInv.svcBegin (h : TexSysInv s log) (hex : s.ext.locks.state t ≠ .nonexist)
    {ssid : BitVec 16} {rest : List Frame} (hcalls : s.ext.calls t = .svcBegin ssid :: rest) :
    TexSysInv ((s.setTcb t ((s.ext.tcb t).beginSvc ssid).2).setCalls t
      (.svcUnlock ((s.ext.tcb t).beginSvc ssid).1 :: rest)) log := by
  -- the frame that will hold the word stands there first
  have haside : TexInv (s.ext.tcb t) (s.reqdct t) (s.isysmode t)
      (.svcUnlock ((s.ext.tcb t).beginSvc ssid).1 :: rest) (log t) := by
    refine (h.tasks t hex).goOn (fun w hw => ?_) (fun w hw c hc => ⟨w, ?_, hc⟩) fun f hf =>
      Or.inl ?_
    · rw [hcalls]
      rcases List.mem_cons.mp hw with rfl | hw
      · exact List.mem_cons_self
      · exact hw
    · rw [hcalls] at hw
      exact (List.mem_cons.mp hw).elim (fun he => he ▸ List.mem_cons_self) fun hw =>
        List.mem_cons_of_mem _ (List.mem_cons_of_mem _ hw)
    · rw [hcalls]
      exact hf
  refine h.change t (fun _ _ => Iff.rfl) (fun u hu => ?_) (fun _ => ?_) fun hno => absurd hno hex
  · simp [TexSys.task, TexSys.setTcb, TexSys.setCalls, ExtSvc.setCalls, ExtSvc.setTcb, hu]
  · simpa [TexSys.setTcb, TexSys.setCalls, ExtSvc.setCalls, ExtSvc.setTcb] using haside.beginSvc
      ssid List.mem_cons_self

/-- An extended SVC ends: what was put aside is in break processing again. -/
theorem TexSysInv.svcEnd (h : TexSysInv s log) (hex : s.ext.locks.state t ≠ .nonexist)
    {save : SvcSave} {ercd : ER} {rest : List Frame}
    (hcalls : s.ext.calls t = .svcEnd save ercd :: rest) :
    TexSysInv ((s.setTcb t ((s.ext.tcb t).endSvc save)).setCalls t (.svcUnlockEnd ercd :: rest))
      log := by
  have inv := h.tasks t hex
  rw [hcalls] at inv
  have hgone : TexInv ((s.ext.tcb t).endSvc save) (s.reqdct t) (s.isysmode t) (.svcUnlockEnd ercd ::
      rest) (log t) := by
    refine (inv.endSvc save List.mem_cons_self).goOn (fun w hw => ?_) (fun w hw c hc => ?_)
      fun f hf => Or.inl hf
    · exact (List.mem_cons.mp hw).elim (fun he => he ▸ List.mem_cons_self) fun hw =>
        List.mem_cons_of_mem _ (List.mem_cons_of_mem _ hw)
    · rcases List.mem_cons.mp hw with rfl | hw
      · exact ⟨_, List.mem_cons_self, hc⟩
      rcases List.mem_cons.mp hw with rfl | hw
      · refine ⟨_, List.mem_cons_self, ?_⟩
        show ((s.ext.tcb t).exectex ||| save.exectex).getLsbD c = true
        rw [BitVec.getLsbD_or, hc, Bool.or_true]
      · exact ⟨w, List.mem_cons_of_mem _ hw, hc⟩
  refine h.change t (fun _ _ => Iff.rfl) (fun u hu => ?_) (fun _ => ?_) fun hno => absurd hno hex
  · simp [TexSys.task, TexSys.setTcb, TexSys.setCalls, ExtSvc.setCalls, ExtSvc.setTcb, hu]
  · simpa [TexSys.setTcb, TexSys.setCalls, ExtSvc.setCalls, ExtSvc.setTcb] using hgone

/-- The first critical section of `call_brkhdr` for `u`. -/
theorem TexSysInv.brkCall (h : TexSysInv s log) (hex : s.ext.locks.state t ≠ .nonexist) {u : Tsk}
    {rest : List Frame} (hcalls : s.ext.calls t = .brkCall u :: rest) :
    TexSysInv { s with ext := match s.ext.callBrkhdr t u with
      | (none, ext) => ext.setCalls t rest
      | (some save, ext) => ext.setCalls t (.brkFn save :: rest) } log := by
  have hran :
      TexSysInv (s.setTcb u { s.ext.tcb u with execssid := (s.ext.tcb u).execssid ||| BREAK_RAN })
      log :=
    h.setTcb u _ fun hu => (h.tasks u hu).congr rfl rfl (fun _ => rfl) rfl rfl rfl
  rcases callBrkhdr_cases s.ext t u with hcall | hcall | hcall
  · rw [hcall]
    exact h.goOn hex rfl (hcalls ▸ rfl) (hcalls ▸ rfl)
  · rw [hcall]
    exact hran.goOn hex rfl (hcalls ▸ rfl) (hcalls ▸ rfl)
  · rw [hcall]
    refine hran.callFn hex ?_ ?_
    · show _ = (s.ext.calls t).filterMap Frame.exectex
      rw [hcalls]
      rfl
    · show _ = _ :: (s.ext.calls t).filterMap Frame.texflg
      rw [hcalls]
      rfl

/-- The critical section of `_tk_ras_tex` in a call of `t`. -/
theorem TexSysInv.rasRaise (h : TexSysInv s log) (hex : s.ext.locks.state t ≠ .nonexist) (prot : ER)
    {u : Tsk} {texcd : ℤ} {rest : List Frame} (hcalls : s.ext.calls t = .rasRaise u texcd :: rest)
    (hraise : s.ext.raising prid = some (u, texcd))
    (heq : (s.ext.setTcb u ((s.ext.tcb u).raise (s.ext.locks.state u) prot texcd).2).setCalls t
      (if ((s.ext.tcb u).raise (s.ext.locks.state u) prot texcd).1.2 then
        .brkCall u :: .rasUnlock u true ((s.ext.tcb u).raise (s.ext.locks.state u) prot
          texcd).1.1 :: rest
      else .rasUnlock u false ((s.ext.tcb u).raise (s.ext.locks.state u) prot texcd).1.1 ::
        rest) = ext) :
    TexSysInv (s.after ext (.step prid prot)) ((TexOp.ext (.step prid prot)).note s log) := by
  unfold TexSys.after TexOp.note
  dsimp only
  rw [hraise]
  dsimp only
  rw [request_eq { s with ext := ext } (h.raise_user prot texcd), ← heq]
  refine (h.raise prot u texcd).goOn hex rfl ?_ ?_
  · show _ = (s.ext.calls t).filterMap Frame.exectex
    rw [hcalls]
    split_ifs <;> rfl
  · show _ = (s.ext.calls t).filterMap Frame.texflg
    rw [hcalls]
    split_ifs <;> rfl

/-- A step of a call. -/
theorem TexSysInv.extStep (h : TexSysInv s log) (hc : s.ext.locks.ctxtsk prid = some t)
    (hex : s.ext.locks.state t ≠ .nonexist) {prot : ER} (heq : s.ext.step prid prot t = some ext) :
    TexSysInv (s.after ext (.step prid prot)) ((TexOp.ext (.step prid prot)).note s log) := by
  have hraising : s.ext.raising prid = (s.ext.calls t).head?.bind Frame.raises := by
    unfold ExtSvc.raising
    rw [hc, Option.bind_some]
  unfold ExtSvc.step at heq
  rcases hcalls : s.ext.calls t with _ | ⟨f, rest⟩
  · rw [hcalls] at heq
    exact nomatch heq
  rw [hcalls] at heq hraising
  -- the steps that leave the words alone
  have hplain (hr : s.ext.raising prid = none) (hinv : TexSysInv { s with ext := ext } log) :
      TexSysInv (s.after ext (.step prid prot)) ((TexOp.ext (.step prid prot)).note s log) := by
    obtain ⟨hafter, hnote⟩ := after_step_of_not_raising log ext prot hr
    rwa [hafter, hnote]
  have hgo {calls : List Frame} (hr : s.ext.raising prid = none) (hs : s.ext.setCalls t calls = ext)
      (hw : calls.filterMap Frame.exectex = (f :: rest).filterMap Frame.exectex)
      (hf : calls.filterMap Frame.texflg = (f :: rest).filterMap Frame.texflg) :
      TexSysInv (s.after ext (.step prid prot)) ((TexOp.ext (.step prid prot)).note s log) := by
    subst hs
    exact hplain hr (h.goOn hex rfl (hcalls ▸ hw) (hcalls ▸ hf))
  cases f with
  | svcLock ssid => exact hplain hraising (h.lockThen hex heq (hcalls ▸ rfl) (hcalls ▸ rfl))
  | svcTest ssid =>
    refine hgo hraising (Option.some.inj heq) ?_ ?_
    · split_ifs <;> rfl
    · split_ifs <;> rfl
  | svcRefuse => exact hplain hraising (h.unlockThen hex heq (hcalls ▸ rfl) (hcalls ▸ rfl))
  | svcBegin ssid =>
    obtain rfl := Option.some.inj heq
    exact hplain hraising (h.svcBegin hex hcalls)
  | svcUnlock save => exact hplain hraising (h.unlockThen hex heq (hcalls ▸ rfl) (hcalls ▸ rfl))
  | svcHandler save => exact nomatch heq
  | svcRelock save ercd => exact hplain hraising (h.lockThen hex heq (hcalls ▸ rfl) (hcalls ▸ rfl))
  | svcEnd save ercd =>
    obtain rfl := Option.some.inj heq
    exact hplain hraising (h.svcEnd hex hcalls)
  | svcUnlockEnd ercd => exact hplain hraising (h.unlockThen hex heq (hcalls ▸ rfl) (hcalls ▸ rfl))
  | rasLock tcb texcd => exact hplain hraising (h.lockThen hex heq (hcalls ▸ rfl) (hcalls ▸ rfl))
  | rasRaise u texcd => exact h.rasRaise hex prot hcalls hraising (Option.some.inj heq)
  | rasUnlock tcb rastex ercd =>
    refine hplain hraising (h.unlockThen hex heq ?_ ?_)
    · rw [hcalls]
      split_ifs <;> rfl
    · rw [hcalls]
      split_ifs <;> rfl
  | selfBreak ercd =>
    refine hgo hraising (Option.some.inj heq) ?_ ?_
    · split_ifs <;> rfl
    · split_ifs <;> rfl
  | brkCall u =>
    obtain rfl := Option.some.inj heq
    exact hplain hraising (h.brkCall hex hcalls)
  | brkFn texflg => exact nomatch heq
  | ret ercd => exact hgo hraising (Option.some.inj heq) rfl rfl

theorem TexSysInv.finish (h : TexSysInv s log) (hex : s.ext.locks.state t ≠ .nonexist) {ercd : ER}
    (heq : s.ext.finish t ercd = some ext) : TexSysInv { s with ext := ext } log := by
  have inv := h.tasks t hex
  unfold ExtSvc.finish at heq
  rcases hcalls : s.ext.calls t with _ | ⟨f, rest⟩
  · rw [hcalls] at heq
    exact nomatch heq
  rw [hcalls] at heq inv
  cases f with
  | svcHandler save =>
    obtain rfl := Option.some.inj heq
    exact h.goOn hex rfl (hcalls ▸ rfl) (hcalls ▸ rfl)
  | brkFn save =>
    obtain rfl := Option.some.inj heq
    obtain ⟨h0, h1⟩ := inv.saved save List.mem_cons_self
    have hback : TexInv { s.ext.tcb t with sysmode := (s.ext.tcb t).sysmode - 1, texflg := save }
      (s.reqdct t) (s.isysmode t)
        (.brkFn save :: rest) (log t) := inv.congr rfl rfl (fun _ => rfl) rfl h0 h1
    have hgone : TexInv { s.ext.tcb t with sysmode := (s.ext.tcb t).sysmode - 1, texflg := save }
      (s.reqdct t) (s.isysmode t)
        rest (log t) :=
      hback.goOn (fun w hw => hw) (fun w hw c hc => ⟨w, hw, hc⟩) fun f hf =>
        Or.inl (List.mem_cons_of_mem _ hf)
    refine h.change t (fun _ _ => Iff.rfl) (fun u hu => ?_) (fun _ => ?_) fun hno => absurd hno hex
    · simp [TexSys.task, ExtSvc.setCalls, ExtSvc.setTcb, hu]
    · simpa [ExtSvc.setCalls, ExtSvc.setTcb] using hgone
  | _ => exact nomatch heq

theorem TexSysInv.enter (h : TexSysInv s log) (hex : s.ext.locks.state t ≠ .nonexist) {f : Frame}
    (op : ExtOp) (hentry : op.entry maxSsyid = some (prid, f)) :
    TexSysInv { s with ext := s.ext.setCalls t (f :: s.ext.calls t) } log := by
  have hf : f.exectex = none ∧ f.texflg = none := by
    cases op with
    | svc prid fncd =>
      obtain ⟨-, rfl⟩ := Prod.mk.inj (Option.some.inj hentry)
      unfold ExtSvc.svcIentry
      dsimp only
      split_ifs <;> exact ⟨rfl, rfl⟩
    | ras prid idOk ddsp tcb texcd =>
      obtain ⟨-, rfl⟩ := Prod.mk.inj (Option.some.inj hentry)
      unfold ExtSvc.tkRasTex
      split_ifs <;> exact ⟨rfl, rfl⟩
    | _ => exact nomatch hentry
  exact h.goOn hex rfl (List.filterMap_cons_none hf.1) (List.filterMap_cons_none hf.2)

/-- Every operation of the extended SVCs. -/
theorem TexSysInv.extOp (h : TexSysInv s log) {op : ExtOp} (hl : op.Legal numProc s.ext)
    (hset : ∀ t tcb, op ≠ .setTcb t tcb) (heq : op.exec numProc maxSsyid s.ext = some ext) :
    TexSysInv (s.after ext op) ((TexOp.ext op).note s log) := by
  have hexists {prid : ℕ} {t : Tsk} (he : Executes s.ext.locks prid t) :
      s.ext.locks.state t ≠ .nonexist := by
    rw [he.2]
    exact TaskState.noConfusion
  cases op with
  | svc prid fncd =>
    obtain ⟨t, he, -⟩ := hl
    rw [ExtOp.exec, he.1] at heq
    obtain rfl := Option.some.inj heq
    exact h.enter (hexists he) (.svc prid fncd) rfl
  | ras prid idOk ddsp tcb texcd =>
    obtain ⟨t, he, -⟩ := hl
    rw [ExtOp.exec, he.1] at heq
    obtain rfl := Option.some.inj heq
    exact @TexSysInv.enter s log t prid maxSsyid h (hexists he) _ (.ras prid idOk ddsp tcb texcd)
      rfl
  | step prid prot =>
    obtain ⟨t, he, -⟩ := hl
    rw [ExtOp.exec, he.1, Option.bind_some] at heq
    exact h.extStep he.1 (hexists he) heq
  | finish prid ercd =>
    obtain ⟨t, he, -⟩ := hl
    rw [ExtOp.exec, he.1, Option.bind_some] at heq
    exact h.finish (hexists he) heq
  | dispatch prid next =>
    obtain rfl := Option.some.inj heq
    exact ⟨h.tasks, h.absent⟩
  | cre t isysmode =>
    obtain rfl := Option.some.inj heq
    refine h.change t (fun u hu => ?_) (fun u hu => ?_) (fun _ => ?_) fun hno => ?_
    · simp [TexSys.after, SvcState.creTsk, SvcState.makeDormant, hu]
    · simp [TexSys.task, TexSys.after, TexOp.note, ExtSvc.setTcb, hu]
    · simpa [TexSys.after, TexOp.note, ExtSvc.setTcb, h.absent t hl.1] using texInv_dormant isysmode
    · exact h.absent t hl.1
  | sta t =>
    obtain rfl := Option.some.inj heq
    have hsame (u : Tsk) : (s.ext.locks.staTsk numProc t).2.state u = .nonexist ↔
        s.ext.locks.state u = .nonexist := by
      unfold SvcState.staTsk
      by_cases hno : s.ext.locks.state t = .nonexist
      · rw [if_pos hno]
      rw [if_neg hno]
      split_ifs
      · exact Iff.rfl
      · by_cases hut : u = t
        · subst hut
          simp [hno]
        · simp [hut]
    exact ⟨fun u hu => h.tasks u ((hsame u).not.mp hu), fun u hu => h.absent u ((hsame u).mp hu)⟩
  | setTcb t tcb => exact absurd rfl (hset t tcb)
  | defSsy breakfn =>
    obtain rfl := Option.some.inj heq
    exact ⟨h.tasks, h.absent⟩

/-- **Every operation** keeps the invariant. -/
theorem TexSysInv.exec (h : TexSysInv s log) {op : TexOp} (hl : op.Legal numProc s)
    (hfrom : op.FromHandler s) (heq : op.exec numProc maxSsyid s = some s') :
    TexSysInv s' (op.note s log) := by
  have hexists {prid : ℕ} {t : Tsk} (he : Executes s.ext.locks prid t) :
      s.ext.locks.state t ≠ .nonexist := by
    rw [he.2]
    exact TaskState.noConfusion
  cases op with
  | ext op =>
    obtain ⟨ext, hexec, rfl⟩ := Option.map_eq_some_iff.mp heq
    exact h.extOp hl.1 hl.2 hexec
  | ssy prid =>
    obtain ⟨t, he, -⟩ := hl
    rw [TexOp.exec, he.1] at heq
    obtain rfl := Option.some.inj heq
    exact h.callFn (hexists he) rfl rfl
  | defTex t prot texhdr =>
    obtain rfl := Option.some.inj heq
    have hinv :=
      h.update t (s.reqdct t) fun ht => (h.tasks t ht).defTex (s.ext.locks.state t) prot texhdr
    rwa [Function.update_eq_self] at hinv
  | setMask t prot texmsk enable =>
    obtain rfl := Option.some.inj heq
    have hinv := h.update t (s.reqdct t) fun ht =>
      (h.tasks t ht).setTexMask (s.ext.locks.state t) prot texmsk enable
    rwa [Function.update_eq_self] at hinv
  | endTex prid ddsp enatex =>
    obtain ⟨t, he, -⟩ := hl
    rw [TexOp.exec, he.1] at heq
    obtain rfl := Option.some.inj heq
    have hnote : (TexOp.endTex prid ddsp enatex).note s log =
        texLog log t ((s.ext.tcb t).endNotes ddsp enatex) := by
      unfold TexOp.note
      dsimp only
      rw [he.1]
    show TexSysInv (s.tkEndTex t ddsp enatex) _
    have huser : ((s.ext.tcb t).tkEndTex ddsp enatex).1.2 = true →
        (s.setTcb t ((s.ext.tcb t).tkEndTex ddsp enatex).2).isysmode t = 0 :=
          h.end_user (hexists he) ddsp enatex
    rw [hnote, TexSys.tkEndTex, request_eq _ huser]
    exact h.update t _ fun ht => (h.tasks t ht).tkEndTex (hfrom t he.1) ddsp enatex
  | dct prid =>
    obtain ⟨t, he, hcalls, -⟩ := hl
    rw [TexOp.exec, he.1] at heq
    obtain rfl := Option.some.inj heq
    have hnote : (TexOp.dct prid).note s log =
        texLog log t ((s.ext.tcb t).setupTexhdr.1.map TexEvent.started).toList := by
      unfold TexOp.note
      dsimp only
      rw [he.1]
    rw [hnote]
    refine h.update t _ fun ht => ?_
    have inv := h.tasks t ht
    rw [hcalls] at inv ⊢
    exact inv.setupTexhdr

end Steps

/-! ## Runs -/

section Runs

variable {s s' : TexSys} {log log' : Tsk → List TexEvent} {t : Tsk} {prid numProc maxSsyid : ℕ}

theorem TexRun.inv (run : TexRun numProc maxSsyid s log) : TexSysInv s log := by
  induction run with
  | start locklist tcb isysmode => exact ⟨fun _ h => absurd rfl h, fun _ _ => rfl⟩
  | step op _ hl hfrom heq ih => exact ih.exec hl hfrom heq

/-- **The history of every task is right**, and the words of its control block are the summary of
it. -/
theorem texRun_history (run : TexRun numProc maxSsyid s log)
    (hex : s.ext.locks.state t ≠ .nonexist) :
    History.Right TexRight (log t) ∧
      (∀ c, (s.ext.tcb t).pendtex.getLsbD c = (texView (log t)).pending c) ∧
      ((s.ext.tcb t).texflg &&& TEX0_RUNNING ≠ 0 ↔ (texView (log t)).aborted = true) ∧
      ((s.ext.tcb t).texflg &&& TEX1_RUNNING = 0 ↔ (texView (log t)).running = false) := by
  have inv := run.inv.tasks t hex
  refine ⟨inv.right, inv.pend, ?_, ?_⟩
  · rw [texflg_tex0, inv.tex0]
  · rw [texflg_tex1, inv.tex1]

/-- **No task exception is forgotten.** While a handler may start, the task has a DCT request for
what is pending, and as soon as it is at user level the handler starts, with this exception or a
lower one. -/
theorem texRun_asked (run : TexRun numProc maxSsyid s log) (hex : s.ext.locks.state t ≠ .nonexist)
    (hfree : (texView (log t)).Free) {c : ℕ} (hc : (texView (log t)).pending c = true) :
    s.reqdct t = true ∧ s.isysmode t = 0 ∧ (s.ext.tcb t).texhdr = true ∧
      ∀ prid, Executes s.ext.locks prid t → s.ext.calls t = [] →
        (TexOp.dct prid).Legal numProc s ∧ ∃ d ≤ c, (s.ext.tcb t).setupTexhdr.1 = some d := by
  have inv := run.inv.tasks t hex
  obtain ⟨w, hw, hbit⟩ := inv.asked hfree c hc
  have hreq := inv.req w hw (ne_zero_of_bit hbit)
  have hhdr : (s.ext.tcb t).texhdr = true := by
    by_contra hno
    have hmask := inv.mask c ((inv.pend c).trans hc)
    rw [inv.hdr (Bool.not_eq_true _ ▸ hno)] at hmask
    simp at hmask
  refine ⟨hreq, inv.user hhdr, hhdr, fun prid he hcalls => ⟨⟨t, he, hcalls, hreq⟩, ?_⟩⟩
  rw [hcalls] at hw
  obtain rfl := List.mem_singleton.mp hw
  rcases (s.ext.tcb t).setupTexhdr_spec with ⟨hzero, -⟩ | ⟨d, hd, heq⟩
  · exact absurd hzero (ne_zero_of_bit hbit)
  · exact ⟨d, hd.le hbit, by rw [heq]⟩

end Runs

/-! ## Deliveries -/

section Deliveries

variable {s s' s'' : TexSys} {log log' log'' : Tsk → List TexEvent} {t : Tsk}
  {prid numProc maxSsyid : ℕ} {ops ops' : List TexOp}

/-- Operations one after the other. -/
inductive TexSteps (numProc maxSsyid : ℕ) : TexSys → (Tsk → List TexEvent) → List TexOp →
    TexSys → (Tsk → List TexEvent) → Prop
  | nil (s : TexSys) (log : Tsk → List TexEvent) : TexSteps numProc maxSsyid s log [] s log
  | cons {s s₁ s' : TexSys} {log log' : Tsk → List TexEvent} (op : TexOp) (ops : List TexOp) :
    op.Legal numProc s → op.FromHandler s → op.exec numProc maxSsyid s = some s₁ →
      TexSteps numProc maxSsyid s₁ (op.note s log) ops s' log' →
      TexSteps numProc maxSsyid s log (op :: ops) s' log'

theorem TexSteps.append (h : TexSteps numProc maxSsyid s log ops s' log')
    (h' : TexSteps numProc maxSsyid s' log' ops' s'' log'') :
    TexSteps numProc maxSsyid s log (ops ++ ops') s'' log'' := by
  induction h with
  | nil s log => exact h'
  | cons op ops hl hfrom heq _ ih => exact .cons op _ hl hfrom heq (ih h')

/-- The handler calls `tk_end_tex`. With `enatex` it is over then, and starts again when the task is
back at user level; without, it goes on with the exception that the call returns. -/
def texServe (prid : ℕ) (enatex : Bool) : List TexOp :=
  if enatex then [.endTex prid false true, .dct prid] else [.endTex prid false false]

/-- The exceptions, from the lowest on. -/
def texCodes (w : BitVec 32) : List ℕ := (List.range 32).filter w.getLsbD

theorem texCodes_cons {w : BitVec 32} {c : ℕ} (hc : LowestBit w c) :
    texCodes w = c :: texCodes (w &&& ~~~(1#32 <<< c)) := by
  have hsplit : List.range 32 = List.range c ++ c :: List.range' (c + 1) (31 - c) := by
    have hlt := hc.lt
    rw [List.range_eq_range', List.range_eq_range', ← List.range'_succ, show 31 - c + 1 = 32 - c by
      omega]
    have happ := List.range'_append_1 (s := 0) (m := c) (n := 32 - c)
    rw [Nat.zero_add] at happ
    rw [happ, show c + (32 - c) = 32 by omega]
  have hbelow (w' : BitVec 32) (hw : ∀ d < c, w'.getLsbD d = false) :
      (List.range c).filter w'.getLsbD = [] := by
    rw [List.filter_eq_nil_iff]
    intro d hd
    rw [hw d (List.mem_range.mp hd)]
    exact Bool.false_ne_true
  have habove : (List.range' (c + 1) (31 - c)).filter (w &&& ~~~(1#32 <<< c)).getLsbD =
      (List.range' (c + 1) (31 - c)).filter w.getLsbD := by
    refine List.filter_congr fun d hd => ?_
    have hcd := (List.mem_range'_1.mp hd).1
    rw [and_not_texBit hc.lt, decide_eq_true (by omega), Bool.and_true]
  unfold texCodes
  rw [hsplit, List.filter_append, List.filter_append, hbelow w hc.2, hbelow _ fun d hd => by
    rw [and_not_texBit hc.lt, hc.2 d hd, Bool.false_and], List.filter_cons_of_pos hc.1,
      List.filter_cons_of_neg, habove]
  · rfl
  · rw [and_not_texBit hc.lt]
    simp

/-- A handler of the exceptions from 1 on is in execution at user level, with `w` pending. -/
structure TexServing (s : TexSys) (prid : ℕ) (t : Tsk) (w : BitVec 32) : Prop where
  executes : Executes s.ext.locks prid t
  calls : s.ext.calls t = []
  exectex : (s.ext.tcb t).exectex = 0
  pendtex : (s.ext.tcb t).pendtex = w
  tex0 : (s.ext.tcb t).texflg.getLsbD 0 = false
  tex1 : (s.ext.tcb t).texflg.getLsbD 1 = true
  zero : w.getLsbD 0 = false
  user : w ≠ 0 → s.isysmode t = 0

theorem TexServing.endCode {w : BitVec 32} {c : ℕ} (h : TexServing s prid t w)
    (hc : LowestBit w c) :
    c ≠ 0 ∧ (s.ext.tcb t).endCode = c := by
  have hpos : c ≠ 0 := by
    rintro rfl
    exact absurd (hc.1.symm.trans h.zero) Bool.noConfusion
  refine ⟨hpos, ?_⟩
  rcases (s.ext.tcb t).endCode_spec with ⟨-, hnone⟩ | ⟨hcode, hset, hbelow⟩
  · rw [h.pendtex] at hnone
    exact absurd (hc.1.symm.trans (hnone c (Nat.pos_of_ne_zero hpos))) Bool.noConfusion
  · rw [h.pendtex] at hset hbelow
    refine le_antisymm (Nat.le_of_not_lt fun hlt => ?_) (hc.le hset)
    exact absurd (hc.1.symm.trans (hbelow c (Nat.pos_of_ne_zero hpos) hlt)) Bool.noConfusion

theorem TexServing.tkEndTex {w : BitVec 32} (h : TexServing s prid t w) (enatex : Bool) :
    (s.ext.tcb t).tkEndTex false enatex =
      ((((s.ext.tcb t).endCode : ℤ), ((s.ext.tcb t).endTex enatex).1),
        ((s.ext.tcb t).endTex enatex).2) ∧
    (s.ext.tcb t).endNotes false enatex =
      if enatex ∨ (s.ext.tcb t).endCode = 0 then
        [.ended] else [.ended, .started (s.ext.tcb t).endCode] := by
  have hflg := (texflg_only_tex1 _).mpr ⟨h.tex0, h.tex1⟩
  unfold TexBlock.tkEndTex TexBlock.endNotes
  rw [if_neg Bool.false_ne_true, if_neg Bool.false_ne_true, if_neg (not_not.mpr hflg),
    if_neg (not_not.mpr hflg)]
  exact ⟨rfl, rfl⟩

/-- The task is back at user level, and the handler of the lowest exception starts. -/
theorem serving_of_dct (numProc maxSsyid : ℕ) {c : ℕ} (he : Executes s.ext.locks prid t)
    (hcalls : s.ext.calls t = []) (hreq : s.reqdct t = true)
    (hc : LowestBit (s.ext.tcb t).exectex c) (hpos : c ≠ 0)
    (hzero : (s.ext.tcb t).pendtex.getLsbD 0 = false) (h0 : (s.ext.tcb t).texflg.getLsbD 0 = false)
    (huser : (s.ext.tcb t).pendtex ≠ 0 → s.isysmode t = 0) (log : Tsk → List TexEvent) :
    ∃ s' log', TexSteps numProc maxSsyid s log [.dct prid] s' log' ∧
      TexServing s' prid t ((s.ext.tcb t).pendtex &&& ~~~(1#32 <<< c)) ∧
        log' t = log t ++ [.started c] := by
  have heq := ((s.ext.tcb t).setupTexhdr_spec.resolve_left fun hno => ne_zero_of_bit hc.1 hno.1)
  obtain ⟨d, hd, heq⟩ := heq
  obtain rfl : d = c := le_antisymm (hd.le hc.1) (hc.le hd.1)
  have hexec : (TexOp.dct prid).exec numProc maxSsyid s = some (s.setupTexhdr t) := by
    rw [TexOp.exec, he.1]
    rfl
  have htcb : (s.setupTexhdr t).ext.tcb t = (s.ext.tcb t).setupTexhdr.2 := Function.update_self ..
  rw [heq, if_neg hpos] at htcb
  refine ⟨_, _, .cons _ _ ⟨t, he, hcalls, hreq⟩ trivial hexec (.nil _ _), ?_, ?_⟩
  · refine ⟨he, hcalls, by rw [htcb], by rw [htcb], ?_, ?_, ?_, fun hne => huser fun hno => hne ?_⟩
    · rw [htcb, BitVec.getLsbD_or, h0]
      rfl
    · rw [htcb, BitVec.getLsbD_or]
      exact Bool.or_true _
    · rw [and_not_texBit hc.lt, hzero, Bool.false_and]
    · rw [hno]
      exact BitVec.zero_and
  · unfold TexOp.note
    dsimp only
    rw [he.1]
    dsimp only
    rw [heq, texLog, Function.update_self]
    rfl

/-- What `tk_end_tex` does while a handler is in execution. -/
theorem TexServing.exec_endTex {w : BitVec 32} (h : TexServing s prid t w) (numProc maxSsyid : ℕ)
    (enatex : Bool) (log : Tsk → List TexEvent) :
    TexSteps numProc maxSsyid s log [.endTex prid false enatex] (s.tkEndTex t false enatex)
      (texLog log t ((s.ext.tcb t).endNotes false enatex)) := by
  have hlegal : (TexOp.endTex prid false enatex).Legal numProc s :=
    ⟨t, h.executes, fun f hf => by rw [h.calls] at hf; exact nomatch hf⟩
  have hfrom : (TexOp.endTex prid false enatex).FromHandler s := fun u hu texflg hmem => by
    rw [Option.some.inj (hu.symm.trans h.executes.1), h.calls] at hmem
    exact absurd hmem List.not_mem_nil
  have hexec : (TexOp.endTex prid false enatex).exec numProc maxSsyid s =
      some (s.tkEndTex t false enatex) := by
    rw [TexOp.exec, h.executes.1]
    rfl
  have hnote : (TexOp.endTex prid false enatex).note s log =
      texLog log t ((s.ext.tcb t).endNotes false enatex) := by
    unfold TexOp.note
    dsimp only
    rw [h.executes.1]
  exact .cons _ _ hlegal hfrom hexec (hnote ▸ .nil _ _)

/-- The lowest exception is served, whichever way the handler ends. -/
theorem TexServing.serve {w : BitVec 32} {c : ℕ} (h : TexServing s prid t w) (numProc maxSsyid : ℕ)
    (hc : LowestBit w c) (enatex : Bool) (log : Tsk → List TexEvent) :
    ∃ s' log', TexSteps numProc maxSsyid s log (texServe prid enatex) s' log' ∧
      TexServing s' prid t (w &&& ~~~(1#32 <<< c)) ∧ log' t = log t ++ [.ended, .started c] := by
  obtain ⟨hpos, hcode⟩ := h.endCode hc
  have hsteps := h.exec_endTex numProc maxSsyid enatex log
  obtain ⟨heq, hnotes⟩ := h.tkEndTex enatex
  cases enatex with
  | true =>
    rw [if_pos (Or.inl rfl)] at hnotes
    have hend : (s.ext.tcb t).endTex true = (true, { s.ext.tcb t with
        texflg := (s.ext.tcb t).texflg &&& ~~~TEX1_RUNNING
        exectex := 0 ||| (s.ext.tcb t).pendtex }) := by
      unfold TexBlock.endTex
      rw [if_pos (Or.inl rfl), hcode, decide_eq_true (Nat.pos_of_ne_zero hpos), h.exectex]
    have hs' := request_eq (t := t) (s.setTcb t ((s.ext.tcb t).tkEndTex false true).2)
      (b := ((s.ext.tcb t).tkEndTex false true).1.2) fun _ => h.user (ne_zero_of_bit hc.1)
    have htcb : (s.tkEndTex t false true).ext.tcb t = ((s.ext.tcb t).endTex true).2 := by
      rw [TexSys.tkEndTex, hs', heq]
      exact Function.update_self ..
    have hreq : (s.tkEndTex t false true).reqdct t = true := by
      rw [TexSys.tkEndTex, hs', heq, hend]
      exact (Function.update_self ..).trans (Bool.or_true _)
    have hsame : (s.tkEndTex t false true).ext.locks = s.ext.locks ∧
      (s.tkEndTex t false true).ext.calls = s.ext.calls ∧
        (s.tkEndTex t false true).isysmode = s.isysmode := by
      rw [TexSys.tkEndTex, hs']
      exact ⟨rfl, rfl, rfl⟩
    obtain ⟨hlocks, hcalls, hmode⟩ := hsame
    rw [hend] at htcb
    have hexec : ((s.tkEndTex t false true).ext.tcb t).exectex = w := by
      rw [htcb, ← h.pendtex]
      exact BitVec.zero_or
    have hpend : ((s.tkEndTex t false true).ext.tcb t).pendtex = w := by
      rw [htcb, ← h.pendtex]
    obtain ⟨s', log', hdct, hserving, hlog⟩ := serving_of_dct numProc maxSsyid
      (hlocks ▸ h.executes : Executes _ prid t) (hcalls ▸ h.calls) hreq (hexec ▸ hc) hpos
      (hpend ▸ h.zero) (by
        rw [htcb, texflg_ended, h.tex0, Bool.false_and]) (fun hne => hmode ▸ h.user (hpend ▸ hne))
      (texLog log t ((s.ext.tcb t).endNotes false true))
    refine ⟨s', log', hsteps.append hdct, hpend ▸ hserving, ?_⟩
    rw [hlog, texLog, Function.update_self, hnotes, List.append_assoc]
    rfl
  | false =>
    rw [hcode, if_neg (by simp [hpos])] at hnotes
    have hend :
        (s.ext.tcb t).endTex false =
        (false, { s.ext.tcb t with pendtex := w &&& ~~~(1#32 <<< c) }) := by
      unfold TexBlock.endTex
      rw [hcode, if_neg (by simp [hpos]), h.pendtex]
    have hs' : s.tkEndTex t false false = s.setTcb t { s.ext.tcb t with pendtex := w &&&
        ~~~(1#32 <<< c) } := by
      rw [TexSys.tkEndTex, heq, hend, if_neg Bool.false_ne_true]
    have htcb : (s.tkEndTex t false false).ext.tcb t = { s.ext.tcb t with pendtex := w &&&
        ~~~(1#32 <<< c) } := by
      rw [hs']
      exact Function.update_self ..
    refine ⟨_, _, hsteps, ⟨hs' ▸ h.executes, hs' ▸ h.calls, ?_, by
      rw [htcb], ?_, ?_, ?_, fun hne => ?_⟩, ?_⟩
    · rw [htcb]
      exact h.exectex
    · rw [htcb]
      exact h.tex0
    · rw [htcb]
      exact h.tex1
    · rw [and_not_texBit hc.lt, h.zero, Bool.false_and]
    · rw [hs']
      refine h.user fun hno => hne ?_
      rw [hno]
      exact BitVec.zero_and
    · rw [texLog, Function.update_self, hnotes]

/-- The exceptions that are pending are served one after the other. -/
theorem TexServing.serveAll {w : BitVec 32} (h : TexServing s prid t w) (numProc maxSsyid : ℕ)
    (enatex : List Bool) (hlen : enatex.length = (texCodes w).length) (log : Tsk → List TexEvent) :
    ∃ s' log', TexSteps numProc maxSsyid s log (enatex.flatMap (texServe prid)) s' log' ∧
      TexServing s' prid t 0 ∧
      log' t = log t ++ (texCodes w).flatMap fun c => [.ended, .started c] := by
  induction enatex generalizing s log w with
  | nil =>
    have hnil : texCodes w = [] := List.length_eq_zero_iff.mp hlen.symm
    have hzero : w = 0 := by
      by_contra hne
      obtain ⟨c, hc⟩ := bit_of_ne_zero hne
      have hmem : c ∈ texCodes w :=
        List.mem_filter.mpr ⟨List.mem_range.mpr (BitVec.lt_of_getLsbD hc), hc⟩
      rw [hnil] at hmem
      exact absurd hmem List.not_mem_nil
    subst hzero
    exact ⟨s, log, .nil s log, h, by rw [hnil]; exact (List.append_nil _).symm⟩
  | cons b enatex ih =>
    obtain ⟨c, hc⟩ : ∃ c, LowestBit w c := by
      obtain ⟨c, hmem⟩ :=
        List.exists_mem_of_length_pos (l := texCodes w) (by rw [← hlen]; exact Nat.succ_pos _)
      obtain ⟨d, hd, -⟩ :=
        endLoop_spec (List.mem_filter.mp hmem).2 (List.mem_range.mp (List.mem_filter.mp hmem).1) 0
      exact ⟨d, hd⟩
    have hcodes := texCodes_cons hc
    obtain ⟨s₁, log₁, hsteps, hserving, hlog⟩ := h.serve numProc maxSsyid hc b log
    rw [hcodes] at hlen
    obtain ⟨s', log', hsteps', hserving', hlog'⟩ := ih hserving (Nat.succ.inj hlen) log₁
    refine ⟨s', log', hsteps.append hsteps', hserving', ?_⟩
    rw [hlog', hlog, hcodes, List.append_assoc]
    rfl

theorem TexRun.steps (run : TexRun numProc maxSsyid s log)
    (h : TexSteps numProc maxSsyid s log ops s' log') :
    TexRun numProc maxSsyid s' log' := by
  induction h with
  | nil s log => exact run
  | cons op ops hl hfrom heq _ ih => exact ih (run.step op hl hfrom heq)

/-- **Exceptions are served from the lowest on**, whichever way the handler ends each time. A task
is back at user level with exceptions other than 0 in break processing: the handler starts with the
lowest of them, and what is pending follows in order, each once. -/
theorem texRun_serves (run : TexRun numProc maxSsyid s log) (he : Executes s.ext.locks prid t)
    (hcalls : s.ext.calls t = []) {d : ℕ} (hd : LowestBit (s.ext.tcb t).exectex d) (hpos : d ≠ 0)
    (enatex : List Bool)
    (hlen : enatex.length = ((texCodes (s.ext.tcb t).pendtex).filter (· ≠ d)).length) :
    ∃ s' log',
      TexSteps numProc maxSsyid s log (.dct prid :: enatex.flatMap (texServe prid)) s' log' ∧
      TexRun numProc maxSsyid s' log' ∧ (s'.ext.tcb t).pendtex = 0 ∧
      log' t = log t ++ .started d ::
        ((texCodes (s.ext.tcb t).pendtex).filter (· ≠ d)).flatMap fun c =>
          [.ended, .started c] := by
  have hex : s.ext.locks.state t ≠ .nonexist := by
    rw [he.2]
    exact TaskState.noConfusion
  have inv := run.inv.tasks t hex
  rw [hcalls] at inv
  have hab : (texView (log t)).aborted = false := by
    rw [← Bool.not_eq_true]
    exact fun hab => ne_zero_of_bit hd.1 ((inv.words _ List.mem_cons_self).aborted hab)
  have hzero : (s.ext.tcb t).pendtex.getLsbD 0 = false := by
    by_contra hbit
    have hp := (inv.pend 0).symm.trans (Bool.not_eq_false _ ▸ hbit)
    obtain ⟨w, hw, hset⟩ := inv.asked ⟨hab, Or.inr hp⟩ 0 hp
    obtain rfl := List.mem_singleton.mp hw
    exact hpos (Nat.le_zero.mp (hd.le hset))
  have huser (hne : (s.ext.tcb t).pendtex ≠ 0) : s.isysmode t = 0 := by
    obtain ⟨c, hc⟩ := bit_of_ne_zero hne
    refine inv.user (Bool.not_eq_false _ ▸ fun hno => ?_)
    have hmask := inv.mask c hc
    rw [inv.hdr hno] at hmask
    simp at hmask
  obtain ⟨s₁, log₁, hsteps₁, hserving, hlog₁⟩ := serving_of_dct numProc maxSsyid he hcalls
    (inv.req _ List.mem_cons_self (ne_zero_of_bit hd.1)) hd hpos hzero
    (inv.tex0.trans hab) huser log
  have hcodes : texCodes ((s.ext.tcb t).pendtex &&& ~~~(1#32 <<< d)) =
      (texCodes (s.ext.tcb t).pendtex).filter (· ≠ d) := by
    unfold texCodes
    rw [List.filter_filter]
    refine List.filter_congr fun c _ => ?_
    rw [and_not_texBit hd.lt, Bool.and_comm]
  obtain ⟨s', log', hsteps, hserved, hlog⟩ := hserving.serveAll numProc maxSsyid enatex
    (hcodes ▸ hlen) log₁
  have hall := hsteps₁.append hsteps
  refine ⟨s', log', hall, run.steps hall, hserved.pendtex, ?_⟩
  rw [hlog, hlog₁, hcodes, List.append_assoc]
  rfl

theorem TexRun.goOn (run : TexRun 1 255 s log) (he : Executes s.ext.locks 0 1) {f : Frame}
    (hf : (s.ext.calls 1).head? = some f) (huser : f.user = false)
    (heq : (TexOp.ext (.step 0 E_OK)).exec 1 255 s = some s') :
    TexRun 1 255 s' ((TexOp.ext (.step 0 E_OK)).note s log) := by
  refine run.step _ ⟨⟨1, he, fun h => ?_⟩, fun _ _ => ExtOp.noConfusion⟩ trivial heq
  exact absurd (huser.symm.trans (h f hf)) Bool.false_ne_true

/-- Task 1 runs on processor 0, is back at user level, and has raised the exceptions 3 and 1 for
itself. -/
theorem texRun_raised : ∃ s log, TexRun 1 255 s log ∧ Executes s.ext.locks 0 1 ∧
    s.ext.calls 1 = [] ∧
    (s.ext.tcb 1).exectex = 10 ∧ (s.ext.tcb 1).pendtex = 10 ∧
    log 1 = [.dropped (BitVec.allOnes 32), .raised 3, .raised 1] := by
  have run := @TexRun.start 1 255 (fun _ => none) (fun _ => .dormant 0) fun _ => 0
  have run := run.step (.ext (.cre 1 0)) ⟨⟨rfl, rfl⟩, fun _ _ => ExtOp.noConfusion⟩ trivial rfl
  have run := run.step (.ext (.sta 1)) ⟨trivial, fun _ _ => ExtOp.noConfusion⟩ trivial rfl
  have run := run.step (.ext (.dispatch 0 (some 1))) ⟨fun t ht => by
    obtain rfl := Option.some.inj ht
    exact ⟨rfl, rfl, by decide⟩, fun _ _ => ExtOp.noConfusion⟩ trivial rfl
  have run := run.step (.defTex 1 E_OK true) trivial trivial rfl
  have run := run.step (.setMask 1 E_OK 10 true) trivial trivial rfl
  have run := run.step (.ext (.ras 0 true false 1 3)) ⟨⟨1, ⟨rfl, rfl⟩, fun f hf => nomatch hf⟩,
    fun _ _ => ExtOp.noConfusion⟩ trivial rfl
  have run := run.goOn ⟨rfl, rfl⟩ rfl rfl rfl
  have run := run.goOn ⟨rfl, rfl⟩ rfl rfl rfl
  have run := run.goOn ⟨rfl, rfl⟩ rfl rfl rfl
  have run := run.goOn ⟨rfl, rfl⟩ rfl rfl rfl
  have run := run.goOn ⟨rfl, rfl⟩ rfl rfl rfl
  have run := run.goOn ⟨rfl, rfl⟩ rfl rfl rfl
  have run := run.goOn ⟨rfl, rfl⟩ rfl rfl rfl
  have run := run.step (.ext (.ras 0 true false 1 1)) ⟨⟨1, ⟨rfl, rfl⟩, fun f hf => nomatch hf⟩,
    fun _ _ => ExtOp.noConfusion⟩ trivial rfl
  have run := run.goOn ⟨rfl, rfl⟩ rfl rfl rfl
  have run := run.goOn ⟨rfl, rfl⟩ rfl rfl rfl
  have run := run.goOn ⟨rfl, rfl⟩ rfl rfl rfl
  have run := run.goOn ⟨rfl, rfl⟩ rfl rfl rfl
  have run := run.goOn ⟨rfl, rfl⟩ rfl rfl rfl
  have run := run.goOn ⟨rfl, rfl⟩ rfl rfl rfl
  have run := run.goOn ⟨rfl, rfl⟩ rfl rfl rfl
  refine ⟨_, _, run, ⟨rfl, rfl⟩, rfl, rfl, rfl, ?_⟩
  rfl

/-- Both exceptions are in the words of the task. -/
theorem texRun_history_raised : ∃ s log, TexRun 1 255 s log ∧
    log 1 = [.dropped (BitVec.allOnes 32), .raised 3, .raised 1] ∧ History.Right TexRight (log 1) ∧
      ∀ c, (s.ext.tcb 1).pendtex.getLsbD c = (texView (log 1)).pending c := by
  obtain ⟨s, log, run, he, -, -, -, hlog⟩ := texRun_raised
  have h := texRun_history (t := 1) run (by rw [he.2]; decide)
  exact ⟨s, log, run, hlog, h.1, h.2.1⟩

/-- Exception 3 is asked for, and a lower one starts first. -/
theorem texRun_asked_raised : ∃ s log, TexRun 1 255 s log ∧ (texView (log 1)).pending 3 = true ∧
    s.reqdct 1 = true ∧
    (TexOp.dct 0).Legal 1 s ∧ ∃ d ≤ 3, (s.ext.tcb 1).setupTexhdr.1 = some d := by
  obtain ⟨s, log, run, he, hcalls, -, -, hlog⟩ := texRun_raised
  have hpend : (texView (log 1)).pending 3 = true := by
    rw [hlog]
    rfl
  have hfree : (texView (log 1)).Free := by
    rw [hlog]
    exact ⟨rfl, Or.inl rfl⟩
  obtain ⟨hreq, -, -, hdct⟩ := texRun_asked (t := 1) run (by rw [he.2]; decide) hfree hpend
  exact ⟨s, log, run, hpend, hreq, hdct 0 he hcalls⟩

/-- Exception 1 first, then exception 3, without a return to user level in between. -/
theorem texRun_serves_raised : ∃ s log s' log', TexRun 1 255 s log ∧
    TexSteps 1 255 s log (.dct 0 :: [false].flatMap (texServe 0)) s' log' ∧
      log' 1 = log 1 ++ [.started 1, .ended, .started 3] := by
  obtain ⟨s, log, run, he, hcalls, hexec, hpend, -⟩ := texRun_raised
  have hlow : LowestBit (s.ext.tcb 1).exectex 1 := by
    rw [hexec]
    exact ⟨rfl, fun d hd => by obtain rfl := Nat.lt_one_iff.mp hd; rfl⟩
  obtain ⟨s', log', hsteps, -, -, hlog⟩ :=
    texRun_serves run he hcalls hlow one_ne_zero [false] (by rw [hpend]; rfl)
  refine ⟨s, log, s', log', run, hsteps, ?_⟩
  rw [hlog, hpend]
  rfl

end Deliveries

end SmpTKernel
