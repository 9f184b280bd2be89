import SmpTKernel.RendezvousHistory

/-!
# States and histories of rendezvous

What the control blocks say about a task is what its history says: the port and pattern of a call
that waits, the number and size of a call that is accepted, the port and pattern of a task that
waits to accept. Every routine keeps this, and adds allowed events only.
-/

namespace SmpTKernel

open History

/-! ## Numbers -/

/-- `wrdvno` in another domain. -/
def setDomid (wrdvno domid : BitVec 32) : BitVec 32 :=
  (wrdvno &&& ~~~RDVNO_DOMID_MASK) ||| (((domid &&& RDVNO_OBJID_MASK) <<< 16) &&& RDVNO_DOMID_MASK)

theorem rdvnoMask_getLsbD {i : ℕ} (h : i < 32) :
    RDVNO_MASK.getLsbD i = decide (12 ≤ i ∧ i < 16) := by
  revert i; decide

theorem domidMask_getLsbD {i : ℕ} (h : i < 32) :
    RDVNO_DOMID_MASK.getLsbD i = decide (16 ≤ i ∧ i < 24) := by
  revert i; decide

theorem objidMask_getLsbD {i : ℕ} (h : i < 32) : RDVNO_OBJID_MASK.getLsbD i = decide (i < 16) := by
  revert i; decide

theorem nextRdvno_getLsbD (w : BitVec 32) {i : ℕ} (h : i < 32) :
    (nextRdvno w).getLsbD i = if 12 ≤ i ∧
    i < 16 then (w + 0x1000#32).getLsbD i else w.getLsbD i := by
  unfold nextRdvno
  rw [BitVec.getLsbD_or, BitVec.getLsbD_and, BitVec.getLsbD_and, BitVec.getLsbD_not,
    rdvnoMask_getLsbD h]
  split_ifs with hi
  · simp [hi, h]
  · simp [hi, h]

theorem setDomid_getLsbD (w d : BitVec 32) {i : ℕ} (h : i < 16) :
    (setDomid w d).getLsbD i = w.getLsbD i := by
  have h32 : i < 32 := by omega
  unfold setDomid
  rw [BitVec.getLsbD_or, BitVec.getLsbD_and, BitVec.getLsbD_and, BitVec.getLsbD_not,
    domidMask_getLsbD h32]
  simp [h32, Nat.not_le.mpr h]

theorem idTsk_getLsbD {n i : ℕ} (hn : n < 4095) (hi : i < 32) :
    (idTsk n).getLsbD i = (decide (i < 12) && (n + 1).testBit i || decide (i = 24)) := by
  have hbit : (1#32 <<< 24).getLsbD i = decide (i = 24) := by
    revert i; decide
  unfold idTsk
  rw [BitVec.getLsbD_or, BitVec.getLsbD_ofNat, hbit]
  by_cases h : i < 12
  · simp [hi, h]
  · have hzero : (n + 1).testBit i = false := by
      apply Nat.testBit_lt_two_pow
      calc n + 1 < 2 ^ 12 := by omega
        _ ≤ 2 ^ i := Nat.pow_le_pow_right (by decide) (by omega)
    simp [hzero]

theorem getTskidRdvno_next (w : BitVec 32) : getTskidRdvno (nextRdvno w) = getTskidRdvno w := by
  apply BitVec.eq_of_getLsbD_eq
  intro i hi
  unfold getTskidRdvno
  rw [BitVec.getLsbD_and, BitVec.getLsbD_and, BitVec.getLsbD_not, rdvnoMask_getLsbD hi,
    nextRdvno_getLsbD w hi]
  split_ifs with h
  · simp [h]
  · rfl

theorem indexTsk_congr {w w' : BitVec 32} (h : ∀ i < 16, w.getLsbD i = w'.getLsbD i) :
    indexTsk (getTskidRdvno w) = indexTsk (getTskidRdvno w') := by
  have heq : getTskidRdvno w &&& RDVNO_OBJID_MASK = getTskidRdvno w' &&& RDVNO_OBJID_MASK := by
    apply BitVec.eq_of_getLsbD_eq
    intro i hi
    unfold getTskidRdvno
    rw [BitVec.getLsbD_and, BitVec.getLsbD_and, BitVec.getLsbD_and, BitVec.getLsbD_and,
      objidMask_getLsbD hi]
    by_cases h16 : i < 16
    · rw [h i h16]
    · simp [h16]
  unfold indexTsk getObjid
  rw [heq]

theorem indexTsk_idTsk {n : ℕ} (hn : n < 4095) : indexTsk (getTskidRdvno (idTsk n)) = n := by
  have heq : getTskidRdvno (idTsk n) &&& RDVNO_OBJID_MASK = BitVec.ofNat 32 (n + 1) := by
    apply BitVec.eq_of_getLsbD_eq
    intro i hi
    unfold getTskidRdvno
    rw [BitVec.getLsbD_and, BitVec.getLsbD_and, BitVec.getLsbD_not, objidMask_getLsbD hi,
      rdvnoMask_getLsbD hi, idTsk_getLsbD hn hi, BitVec.getLsbD_ofNat]
    by_cases h : i < 12
    · have h24 : i ≠ 24 := by omega
      have h16 : i < 16 := by omega
      simp [hi, h, h24, h16]
    · have hzero : (n + 1).testBit i = false := by
        apply Nat.testBit_lt_two_pow
        calc n + 1 < 2 ^ 12 := by omega
          _ ≤ 2 ^ i := Nat.pow_le_pow_right (by decide) (by omega)
      by_cases h16 : i < 16
      · simp [hzero, h16, Nat.not_lt.mp h]
      · simp [hzero, h16]
  unfold indexTsk getObjid
  rw [heq, BitVec.toNat_ofNat, Nat.mod_eq_of_lt (by omega)]
  rfl

theorem rdvnoCount_congr {w w' : BitVec 32} (h : ∀ i < 16, w.getLsbD i = w'.getLsbD i) :
    rdvnoCount w = rdvnoCount w' := by
  have heq : w.extractLsb' 12 4 = w'.extractLsb' 12 4 := by
    apply BitVec.eq_of_getLsbD_eq
    intro i hi
    rw [BitVec.getLsbD_extractLsb', BitVec.getLsbD_extractLsb', h (12 + i) (by omega)]
  unfold rdvnoCount
  rw [heq]

theorem rdvnoCount_idTsk {n : ℕ} (hn : n < 4095) : rdvnoCount (idTsk n) = 0 := by
  have heq : (idTsk n).extractLsb' 12 4 = 0#4 := by
    apply BitVec.eq_of_getLsbD_eq
    intro i hi
    have h12 : ¬12 + i < 12 := by omega
    have h24 : 12 + i ≠ 24 := by omega
    rw [BitVec.getLsbD_extractLsb', idTsk_getLsbD hn (by omega)]
    simp [h24]
  unfold rdvnoCount
  rw [heq]
  rfl

theorem rdvnoCount_next (w : BitVec 32) : rdvnoCount (nextRdvno w) = (rdvnoCount w + 1) % 16 := by
  have hfield : (nextRdvno w).extractLsb' 12 4 = (w + 0x1000#32).extractLsb' 12 4 := by
    apply BitVec.eq_of_getLsbD_eq
    intro i hi
    rw [BitVec.getLsbD_extractLsb', BitVec.getLsbD_extractLsb', nextRdvno_getLsbD w (by omega),
      if_pos (by omega)]
  have hstep : (0x1000#32).toNat = 4096 := rfl
  unfold rdvnoCount
  rw [hfield, BitVec.extractLsb'_toNat, BitVec.extractLsb'_toNat, BitVec.toNat_add,
    Nat.shiftRight_eq_div_pow, Nat.shiftRight_eq_div_pow]
  have hw := w.isLt
  omega

/-! ## Views -/

namespace PorTcb

variable (tcb : PorTcb)

/-- Where a task is with its call, by its control block. -/
def calStatus : CalStatus :=
  if tcb.waiting then
    match tcb.wspec with
    | .calTfifo | .calTpri => .calling tcb.wid tcb.winfo.word tcb.winfo.size
    | .rdv => .met tcb.winfo.word tcb.winfo.size
    | .acp | .other _ => .idle
  else .idle

def acpStatus : Option (ℕ × BitVec 32) :=
  if tcb.waiting then
    match tcb.wspec with
    | .acp => some (tcb.wid, tcb.winfo.word)
    | _ => none
  else none

theorem release_not_waiting : tcb.release.waiting = false := by
  unfold release waiting
  dsimp only
  split_ifs <;> rfl

variable {tcb}

theorem calStatus_of_not_waiting (h : tcb.waiting = false) : tcb.calStatus = .idle := by
  unfold calStatus
  rw [if_neg (by rw [h]; exact Bool.false_ne_true)]

theorem acpStatus_of_not_waiting (h : tcb.waiting = false) : tcb.acpStatus = none := by
  unfold acpStatus
  rw [if_neg (by rw [h]; exact Bool.false_ne_true)]

theorem calStatus_rdv (h : tcb.waiting = true) (hw : tcb.wspec = .rdv) :
    tcb.calStatus = .met tcb.winfo.word tcb.winfo.size := by
  unfold calStatus
  rw [if_pos h, hw]

/-- A task that waits to be accepted or for the end of a rendezvous does not wait to accept. -/
theorem acpStatus_of_calStatus (h : tcb.calStatus ≠ .idle) : tcb.acpStatus = none := by
  unfold calStatus at h
  unfold acpStatus
  split_ifs at h ⊢
  · cases hw : tcb.wspec with
    | acp =>
      rw [hw] at h
      exact absurd rfl h
    | _ => rfl
  · rfl

theorem calStatus_of_acpStatus (h : tcb.acpStatus ≠ none) : tcb.calStatus = .idle := by
  by_contra hc
  exact h (acpStatus_of_calStatus hc)

theorem waiting_of_calStatus (h : tcb.calStatus ≠ .idle) : tcb.waiting = true := by
  rw [← Bool.not_eq_false]
  exact fun hw => h (calStatus_of_not_waiting hw)

theorem waiting_of_acpStatus (h : tcb.acpStatus ≠ none) : tcb.waiting = true := by
  rw [← Bool.not_eq_false]
  exact fun hw => h (acpStatus_of_not_waiting hw)

end PorTcb

namespace PorView

variable {v : PorView} {t u : Tsk} {c c' : CalStatus} {a : Option (ℕ × BitVec 32)}

@[simp] theorem setCal_limits : (v.setCal t c).limits = v.limits := rfl
@[simp] theorem setCal_acp : (v.setCal t c).acp = v.acp := rfl
@[simp] theorem setAcp_cal : (v.setAcp t a).cal = v.cal := rfl
@[simp] theorem countUp_cal : (v.countUp t).cal = v.cal := rfl

@[simp] theorem setCal_cal_self : (v.setCal t c).cal t = c := Function.update_self ..
@[simp] theorem setAcp_acp_self : (v.setAcp t a).acp t = a := Function.update_self ..

theorem setCal_cal_of_ne (h : u ≠ t) : (v.setCal t c).cal u = v.cal u := Function.update_of_ne h _ _
theorem setAcp_acp_of_ne (h : u ≠ t) : (v.setAcp t a).acp u = v.acp u := Function.update_of_ne h _ _

@[simp] theorem setCal_setCal : (v.setCal t c).setCal t c' = v.setCal t c' := by
  unfold setCal
  rw [Function.update_idem]

@[simp] theorem setAcp_setAcp {a' : Option (ℕ × BitVec 32)} :
    (v.setAcp t a).setAcp t a' = v.setAcp t a' := by
  unfold setAcp
  rw [Function.update_idem]

theorem setCal_eq_self (h : v.cal t = c) : v.setCal t c = v := by
  unfold setCal
  rw [← h, Function.update_eq_self]

theorem setAcp_eq_self (h : v.acp t = a) : v.setAcp t a = v := by
  unfold setAcp
  rw [← h, Function.update_eq_self]

end PorView

/-- The control blocks say what the view says. -/
structure Agrees (s : PorState) (v : PorView) : Prop where
  cal : ∀ t, v.cal t = (s.tcb t).calStatus
  acp : ∀ t, v.acp t = (s.tcb t).acpStatus
  call_queue : ∀ p t, t ∈ (s.porcb p).call_queue ↔
    ∃ calptn cmsgsz, v.cal t = .calling p calptn cmsgsz
  accept_queue : ∀ p t, t ∈ (s.porcb p).accept_queue ↔ ∃ acpptn, v.acp t = some (p, acpptn)
  call_nodup : ∀ p, (s.porcb p).call_queue.Nodup
  accept_nodup : ∀ p, (s.porcb p).accept_queue.Nodup
  limits : ∀ p, (s.porcb p).porid ≠ 0 → v.limits p = ((s.porcb p).maxcmsz, (s.porcb p).maxrmsz)
  closed : ∀ p, (s.porcb p).porid = 0 → (s.porcb p).call_queue = [] ∧ (s.porcb p).accept_queue = []
  fits : ∀ t p calptn cmsgsz, v.cal t = .calling p calptn cmsgsz → cmsgsz ≤ (v.limits p).1
  timed : ∀ t, (s.tcb t).timed = true → (s.tcb t).waiting = true

variable {s : PorState} {v : PorView} {t u : Tsk} {tcb : PorTcb} {p : ℕ}
  {calptn acpptn rdvno : BitVec 32} {cmsgsz : ℤ}

theorem Agrees.countUp (h : Agrees s v) (t : Tsk) : Agrees s (v.countUp t) :=
  ⟨h.cal, h.acp, h.call_queue, h.accept_queue, h.call_nodup, h.accept_nodup, h.limits, h.closed,
    h.fits, h.timed⟩

theorem Agrees.memcpy (h : Agrees s v) (dst src : ℕ) (n : ℤ) : Agrees (s.memcpy dst src n) v :=
  ⟨h.cal, h.acp, h.call_queue, h.accept_queue, h.call_nodup, h.accept_nodup, h.limits, h.closed,
    h.fits, h.timed⟩

theorem Agrees.timed_setTcb (h : Agrees s v) (htimed : tcb.timed = true → tcb.waiting = true)
    (u : Tsk) (hu : ((s.setTcb t tcb).tcb u).timed = true) :
    ((s.setTcb t tcb).tcb u).waiting = true := by
  change (Function.update s.tcb t tcb u).timed = true at hu
  show (Function.update s.tcb t tcb u).waiting = true
  by_cases hut : u = t
  · subst hut
    rw [Function.update_self] at hu ⊢
    exact htimed hu
  · rw [Function.update_of_ne hut] at hu ⊢
    exact h.timed u hu

/-- A change that says nothing new about the calls of the task. -/
theorem Agrees.same (h : Agrees s v) (hcal : tcb.calStatus = (s.tcb t).calStatus)
    (hacp : tcb.acpStatus = (s.tcb t).acpStatus) (htimed : tcb.timed = true → tcb.waiting = true) :
    Agrees (s.setTcb t tcb) v := by
  refine ⟨fun u => ?_, fun u => ?_, h.call_queue, h.accept_queue, h.call_nodup, h.accept_nodup,
    h.limits, h.closed, h.fits, h.timed_setTcb htimed⟩
  · show v.cal u = (Function.update s.tcb t tcb u).calStatus
    by_cases hu : u = t
    · subst hu
      rw [Function.update_self, hcal, h.cal]
    · rw [Function.update_of_ne hu, h.cal]
  · show v.acp u = (Function.update s.tcb t tcb u).acpStatus
    by_cases hu : u = t
    · subst hu
      rw [Function.update_self, hacp, h.acp]
    · rw [Function.update_of_ne hu, h.acp]

/-- A task that is in no queue, before and after. -/
theorem Agrees.put (h : Agrees s v) (hfree : ∀ p calptn cmsgsz, v.cal t ≠ .calling p calptn cmsgsz)
    (hacp : v.acp t = none) (hfree' : ∀ p calptn cmsgsz, tcb.calStatus ≠ .calling p calptn cmsgsz)
    (hacp' : tcb.acpStatus = none) (htimed : tcb.timed = true → tcb.waiting = true) :
    Agrees (s.setTcb t tcb) (v.setCal t tcb.calStatus) := by
  have hiff (p : ℕ) (u : Tsk) :
    (∃ calptn cmsgsz, (v.setCal t tcb.calStatus).cal u = .calling p calptn cmsgsz) ↔
      ∃ calptn cmsgsz, v.cal u = .calling p calptn cmsgsz := by
    by_cases hu : u = t
    · subst hu
      rw [PorView.setCal_cal_self]
      exact iff_of_false (fun ⟨ptn, sz, e⟩ => hfree' p ptn sz e) fun ⟨ptn, sz, e⟩ =>
        hfree p ptn sz e
    · rw [PorView.setCal_cal_of_ne hu]
  refine ⟨fun u => ?_, fun u => ?_, fun p u => (h.call_queue p u).trans (hiff p u).symm,
    h.accept_queue, h.call_nodup, h.accept_nodup, h.limits, h.closed, fun u p ptn sz hu => ?_,
    h.timed_setTcb htimed⟩
  · show _ = (Function.update s.tcb t tcb u).calStatus
    by_cases hu : u = t
    · subst hu
      rw [Function.update_self, PorView.setCal_cal_self]
    · rw [Function.update_of_ne hu, PorView.setCal_cal_of_ne hu, h.cal]
  · show v.acp u = (Function.update s.tcb t tcb u).acpStatus
    by_cases hu : u = t
    · subst hu
      rw [Function.update_self, hacp, hacp']
    · rw [Function.update_of_ne hu, h.acp]
  · obtain ⟨ptn', sz', hu'⟩ := (hiff p u).mp ⟨ptn, sz, hu⟩
    by_cases hut : u = t
    · subst hut
      exact absurd hu' (hfree p ptn' sz')
    · rw [PorView.setCal_cal_of_ne hut] at hu
      exact h.fits u p ptn sz hu

/-- The end of a wait. -/
theorem Agrees.waitRelease (h : Agrees s v) (t : Tsk) :
    Agrees (s.waitRelease t) ((v.setCal t .idle).setAcp t none) := by
  have hout := (s.tcb t).release_not_waiting
  refine ⟨fun u => ?_, fun u => ?_, fun p u => ?_, fun p u => ?_, fun p => (h.call_nodup p).erase t,
    fun p => (h.accept_nodup p).erase t, h.limits, fun p hp => ?_, fun u p ptn sz hu => ?_,
    h.timed_setTcb fun ht => absurd ht Bool.false_ne_true⟩
  · show _ = (Function.update s.tcb t _ u).calStatus
    by_cases hu : u = t
    · subst hu
      rw [Function.update_self, PorTcb.calStatus_of_not_waiting hout, PorView.setAcp_cal,
        PorView.setCal_cal_self]
    · rw [Function.update_of_ne hu, PorView.setAcp_cal, PorView.setCal_cal_of_ne hu, h.cal]
  · show _ = (Function.update s.tcb t _ u).acpStatus
    by_cases hu : u = t
    · subst hu
      rw [Function.update_self, PorTcb.acpStatus_of_not_waiting hout, PorView.setAcp_acp_self]
    · rw [Function.update_of_ne hu, PorView.setAcp_acp_of_ne hu, PorView.setCal_acp, h.acp]
  · show u ∈ (s.porcb p).call_queue.erase t ↔ _
    rw [(h.call_nodup p).mem_erase_iff, h.call_queue, PorView.setAcp_cal]
    by_cases hu : u = t
    · subst hu
      rw [PorView.setCal_cal_self]
      exact iff_of_false (fun h => h.1 rfl) fun ⟨_, _, e⟩ => CalStatus.noConfusion e
    · rw [PorView.setCal_cal_of_ne hu, and_iff_right hu]
  · show u ∈ (s.porcb p).accept_queue.erase t ↔ _
    rw [(h.accept_nodup p).mem_erase_iff, h.accept_queue]
    by_cases hu : u = t
    · subst hu
      rw [PorView.setAcp_acp_self]
      exact iff_of_false (fun h => h.1 rfl) fun ⟨_, e⟩ => Option.some_ne_none _ e.symm
    · rw [PorView.setAcp_acp_of_ne hu, PorView.setCal_acp, and_iff_right hu]
  · obtain ⟨hcall, haccept⟩ := h.closed p hp
    show (s.porcb p).call_queue.erase t = [] ∧ (s.porcb p).accept_queue.erase t = []
    rw [hcall, haccept]
    exact ⟨rfl, rfl⟩
  · by_cases hut : u = t
    · subst hut
      rw [PorView.setAcp_cal, PorView.setCal_cal_self] at hu
      exact CalStatus.noConfusion hu
    · rw [PorView.setAcp_cal, PorView.setCal_cal_of_ne hut] at hu
      exact h.fits u p ptn sz hu

theorem Agrees.not_mem_call (h : Agrees s v)
    (hfree : ∀ p calptn cmsgsz, v.cal t ≠ .calling p calptn cmsgsz) (p : ℕ) :
    t ∉ (s.porcb p).call_queue := fun ht => by
  obtain ⟨calptn, cmsgsz, hc⟩ := (h.call_queue p t).mp ht
  exact hfree p calptn cmsgsz hc

theorem Agrees.not_mem_accept (h : Agrees s v) (hacp : v.acp t = none) (p : ℕ) :
    t ∉ (s.porcb p).accept_queue :=
  fun ht => by
    obtain ⟨acpptn, ha⟩ := (h.accept_queue p t).mp ht
    exact absurd (hacp.symm.trans ha) (Option.some_ne_none _).symm

theorem callInsert_porcb (s : PorState) (p : ℕ) (t : Tsk) (q : ℕ) :
    ∃ l, (s.callInsert p t).porcb q = { s.porcb q with call_queue := l } ∧
      l.Perm (if q = p then t :: (s.porcb q).call_queue else (s.porcb q).call_queue) := by
  by_cases hq : q = p
  · subst hq
    refine ⟨_, Function.update_self .., ?_⟩
    rw [if_pos rfl]
    exact gcbInsert_perm _ _ _ _
  · refine ⟨(s.porcb q).call_queue, Function.update_of_ne hq _ _, ?_⟩
    rw [if_neg hq]

/-- A task joins a call queue. -/
theorem Agrees.callInsert (h : Agrees s v)
    (hfree : ∀ p calptn cmsgsz, v.cal t ≠ .calling p calptn cmsgsz) (hacp : v.acp t = none)
    (hcal' : tcb.calStatus = .calling p calptn cmsgsz) (hp : (s.porcb p).porid ≠ 0)
    (hsz : cmsgsz ≤ (s.porcb p).maxcmsz) :
    Agrees ((s.setTcb t tcb).callInsert p t) (v.setCal t (.calling p calptn cmsgsz)) := by
  have hne : tcb.calStatus ≠ .idle := by
    rw [hcal']
    exact CalStatus.noConfusion
  have hacp' : tcb.acpStatus = none := PorTcb.acpStatus_of_calStatus hne
  have hporcb := callInsert_porcb (s.setTcb t tcb) p t
  refine ⟨fun u => ?_, fun u => ?_, fun q u => ?_, fun q u => ?_, fun q => ?_, fun q => ?_,
    fun q hq => ?_, fun q hq => ?_, fun u q ptn sz hu => ?_, h.timed_setTcb fun _ =>
      PorTcb.waiting_of_calStatus hne⟩
  · show _ = (Function.update s.tcb t tcb u).calStatus
    by_cases hu : u = t
    · subst hu
      rw [Function.update_self, PorView.setCal_cal_self, hcal']
    · rw [Function.update_of_ne hu, PorView.setCal_cal_of_ne hu, h.cal]
  · show v.acp u = (Function.update s.tcb t tcb u).acpStatus
    by_cases hu : u = t
    · subst hu
      rw [Function.update_self, hacp, hacp']
    · rw [Function.update_of_ne hu, h.acp]
  · obtain ⟨l, hl, hperm⟩ := hporcb q
    rw [hl, hperm.mem_iff]
    by_cases hu : u = t
    · subst hu
      rw [PorView.setCal_cal_self]
      split_ifs with hq
      · rw [hq]
        exact iff_of_true List.mem_cons_self ⟨calptn, cmsgsz, rfl⟩
      · exact iff_of_false (h.not_mem_call hfree q) fun ⟨_, _, e⟩ =>
          hq (CalStatus.calling.inj e).1.symm
    · rw [PorView.setCal_cal_of_ne hu, ← h.call_queue]
      split_ifs with hq
      · exact List.mem_cons.trans (or_iff_right hu)
      · rfl
  · obtain ⟨l, hl, -⟩ := hporcb q
    rw [hl]
    exact h.accept_queue q u
  · obtain ⟨l, hl, hperm⟩ := hporcb q
    rw [hl, hperm.nodup_iff]
    split_ifs with hq
    · exact List.nodup_cons.mpr ⟨h.not_mem_call hfree q, h.call_nodup q⟩
    · exact h.call_nodup q
  · obtain ⟨l, hl, -⟩ := hporcb q
    rw [hl]
    exact h.accept_nodup q
  · obtain ⟨l, hl, -⟩ := hporcb q
    rw [hl] at hq ⊢
    exact h.limits q hq
  · obtain ⟨l, hl, hperm⟩ := hporcb q
    rw [hl] at hq ⊢
    obtain ⟨hcall, haccept⟩ := h.closed q hq
    have hqp : q ≠ p := fun e => hp (e ▸ hq)
    rw [if_neg hqp] at hperm
    exact ⟨(hcall ▸ hperm).eq_nil, haccept⟩
  · by_cases hut : u = t
    · subst hut
      rw [PorView.setCal_cal_self] at hu
      obtain ⟨rfl, -, rfl⟩ := CalStatus.calling.inj hu
      rw [PorView.setCal_limits, h.limits p hp]
      exact hsz
    · rw [PorView.setCal_cal_of_ne hut] at hu
      exact h.fits u q ptn sz hu

/-- A task joins an accept queue. -/
theorem Agrees.askInsert (h : Agrees s v) (hacp : v.acp t = none) (hcal : v.cal t = .idle)
    (hacp' : tcb.acpStatus = some (p, acpptn)) (hp : (s.porcb p).porid ≠ 0) :
    Agrees ((s.setTcb t tcb).setPorcb p { s.porcb p with accept_queue := (s.porcb p).accept_queue ++
      [t] })
      (v.setAcp t (some (p, acpptn))) := by
  have hne : tcb.acpStatus ≠ none := by
    rw [hacp']
    exact Option.some_ne_none _
  have hcal' : tcb.calStatus = .idle := PorTcb.calStatus_of_acpStatus hne
  have hporcb (q : ℕ) : ∃ l, ((s.setTcb t tcb).setPorcb p
      { s.porcb p with accept_queue := (s.porcb p).accept_queue ++ [t] }).porcb q =
        { s.porcb q with accept_queue := l } ∧
      l = if q = p then (s.porcb q).accept_queue ++ [t] else (s.porcb q).accept_queue := by
    by_cases hq : q = p
    · subst hq
      exact ⟨_, Function.update_self .., (if_pos rfl).symm⟩
    · exact ⟨(s.porcb q).accept_queue, Function.update_of_ne hq _ _, (if_neg hq).symm⟩
  refine ⟨fun u => ?_, fun u => ?_, fun q u => ?_, fun q u => ?_, fun q => ?_, fun q => ?_,
    fun q hq => ?_, fun q hq => ?_, fun u q ptn sz hu => h.fits u q ptn sz hu,
    h.timed_setTcb fun _ => PorTcb.waiting_of_acpStatus hne⟩
  · show v.cal u = (Function.update s.tcb t tcb u).calStatus
    by_cases hu : u = t
    · subst hu
      rw [Function.update_self, hcal, hcal']
    · rw [Function.update_of_ne hu, h.cal]
  · show _ = (Function.update s.tcb t tcb u).acpStatus
    by_cases hu : u = t
    · subst hu
      rw [Function.update_self, PorView.setAcp_acp_self, hacp']
    · rw [Function.update_of_ne hu, PorView.setAcp_acp_of_ne hu, h.acp]
  · obtain ⟨l, hl, -⟩ := hporcb q
    rw [hl]
    exact h.call_queue q u
  · obtain ⟨l, hl, hlist⟩ := hporcb q
    rw [hl, hlist]
    by_cases hu : u = t
    · subst hu
      rw [PorView.setAcp_acp_self]
      split_ifs with hq
      · rw [hq]
        exact iff_of_true (List.mem_append_right _ List.mem_cons_self) ⟨acpptn, rfl⟩
      · refine iff_of_false (h.not_mem_accept hacp q) fun ⟨_, e⟩ => hq ?_
        exact (Prod.mk.inj (Option.some.inj e)).1.symm
    · rw [PorView.setAcp_acp_of_ne hu, ← h.accept_queue]
      split_ifs with hq
      · rw [List.mem_append, List.mem_singleton, or_iff_left hu]
      · rfl
  · obtain ⟨l, hl, -⟩ := hporcb q
    rw [hl]
    exact h.call_nodup q
  · obtain ⟨l, hl, hlist⟩ := hporcb q
    rw [hl, hlist]
    split_ifs with hq
    · rw [← List.concat_eq_append]
      exact (h.accept_nodup q).concat (h.not_mem_accept hacp q)
    · exact h.accept_nodup q
  · obtain ⟨l, hl, -⟩ := hporcb q
    rw [hl] at hq ⊢
    exact h.limits q hq
  · obtain ⟨l, hl, hlist⟩ := hporcb q
    rw [hl] at hq ⊢
    obtain ⟨hcall, haccept⟩ := h.closed q hq
    have hqp : q ≠ p := fun e => hp (e ▸ hq)
    rw [if_neg hqp] at hlist
    exact ⟨hcall, hlist.trans haccept⟩

end SmpTKernel
