import SmpTKernel.RendezvousCalls

/-!
# Forwards, replies and the ends of waits

A forward or a reply acts on a caller whose rendezvous is under way, and takes its number from it. A
port may be created and deleted, and tasks come and go.
-/

namespace SmpTKernel

open History

variable {N p : ℕ} {s s' : PorState} {v v' : PorView} {log evs : List PorEvent} {t u cal : Tsk}
  {tcb : PorTcb} {porcb : Porcb} {calptn acpptn rdvno : BitVec 32} {cmsgsz maxrmsz : ℤ}

/-! ## Forwards -/

theorem leads_forwards (hcal : v.cal cal = .met rdvno maxrmsz) (hfits : cmsgsz ≤ (v.limits p).1)
    (hsz : cmsgsz ≤ maxrmsz) (hmax : (v.limits p).2 ≤ maxrmsz) (calptn : BitVec 32) :
    Leads v [.forwards rdvno cal p calptn cmsgsz] (v.setCal cal (.calling p calptn cmsgsz)) :=
  ⟨⟨⟨hfits, maxrmsz, hcal, hsz, hmax⟩, trivial⟩, rfl⟩

theorem leads_forwards_accepts {newRdvno : BitVec 32} (hcal : v.cal cal = .met rdvno maxrmsz)
    (hfits : cmsgsz ≤ (v.limits p).1) (hsz : cmsgsz ≤ maxrmsz) (hmax : (v.limits p).2 ≤ maxrmsz)
    (hacp : v.acp t = some (p, acpptn)) (hptn : calptn &&& acpptn ≠ 0)
    (hindex : indexTsk (getTskidRdvno newRdvno) = cal)
    (hcount : rdvnoCount newRdvno = v.count cal % 16) :
    Leads v [.forwards rdvno cal p calptn cmsgsz, .accepts t acpptn cal p calptn newRdvno cmsgsz]
      (((v.setAcp t none).setCal cal (.met newRdvno (v.limits p).2)).countUp cal) := by
  obtain ⟨hallowed, -⟩ := leads_forwards hcal hfits hsz hmax calptn
  refine ⟨⟨hallowed.1, ⟨hacp, PorView.setCal_cal_self, hptn, hfits, hindex, hcount⟩, trivial⟩, ?_⟩
  show (((v.setAcp t none).setCal cal _).setCal cal _).countUp cal = _
  rw [PorView.setCal_setCal]
  rfl

theorem not_calling_of_met (h : v.cal t = .met rdvno maxrmsz) (p : ℕ) (calptn : BitVec 32)
    (cmsgsz : ℤ) :
    v.cal t ≠ .calling p calptn cmsgsz := by
  rw [h]
  exact CalStatus.noConfusion

theorem PorInv.fwdDiswai (inv : PorInv N s log) (hw : (s.tcb cal).waiting = true) :
    Keeps N log (s.fwdDiswai cal) := (inv.waitReleaseNg hw E_DISWAI).1

/-- What the caller of a rendezvous is while its message goes to another acceptor. -/
theorem sendMessage_caller (s : PorState) (msg : ℕ) (cmsgsz : ℤ) (hne : cal ≠ t) :
    ((s.sendMessage cal t msg cmsgsz).tcb cal).waiting = (s.tcb cal).waiting ∧
      ((s.sendMessage cal t msg cmsgsz).tcb cal).wspec = (s.tcb cal).wspec := by
  rw [sendMessage_tcb hne]
  exact ⟨rfl, rfl⟩

theorem PorInv.fwdMeet (inv : PorInv N s log) (hrdv : ¬PorState.notRdv rdvno (s.tcb cal))
    (hp : (s.porcb p).porid ≠ 0) (hfits : cmsgsz ≤ (s.porcb p).maxcmsz)
    (hmax : (s.porcb p).maxrmsz ≤ (s.tcb cal).winfo.size) (hsz : cmsgsz ≤ (s.tcb cal).winfo.size)
    (ht : t ∈ (s.porcb p).accept_queue) (hptn : calptn &&& (s.tcb t).winfo.word ≠ 0) (msg : ℕ) :
    Keeps N log (s.fwdMeet p calptn rdvno msg cmsgsz cal t) := by
  obtain ⟨hcal, hnone, hw, hwspec⟩ := inv.agrees.met hrdv
  obtain ⟨htacp, htcal, -, -⟩ := inv.agrees.acceptor ht
  have hN : cal < N := inv.counts.callers cal (by rw [hcal]; exact CalStatus.noConfusion)
  have hne : cal ≠ t := fun e => by
    rw [e, htcal] at hcal
    exact CalStatus.noConfusion hcal
  have hlimits := inv.agrees.limits p hp
  have hmeets :=
    leads_forwards_accepts (p := p) hcal (by rwa [hlimits]) hsz (by rwa [hlimits]) htacp hptn
    (inv.counts.index cal hN) (inv.counts.number cal hN)
  have hagrees : Agrees (s.sendMessage cal t msg cmsgsz) ((viewOf log).setAcp t none) :=
    inv.agrees.sendMessage htcal
  have hnone' : ((viewOf log).setAcp t none).acp cal = none :=
    (PorView.setAcp_acp_of_ne hne).trans hnone
  obtain ⟨hwaiting, hspec⟩ := sendMessage_caller s msg cmsgsz hne
  have hcounts : Counts N (s.sendMessage cal t msg cmsgsz) ((viewOf log).countUp cal) :=
    inv.counts.sendMessage hne rfl fun u h => Or.inl h
  unfold PorState.fwdMeet
  refine keeps_ite (fun _ => inv.fwdDiswai hw) fun _ => keeps_ite (fun _ => ?_) fun _ => ?_
  · -- the call ends all the same
    have hends : (s.sendMessage cal t msg cmsgsz).endEvents cal (some E_DISWAI) =
        [.callEnds cal (some E_DISWAI)] := by
      apply endEvents_call
      rw [hspec, hwspec]
      exact Or.inr (Or.inr rfl)
    have hrelease := hagrees.waitRelease cal
    change Agrees _ (((viewOf log).setAcp t none).release cal) at hrelease
    rw [PorView.release_cal hnone'] at hrelease
    unfold PorState.waitReleaseNg
    dsimp only
    rw [hends]
    exact inv.grow (hmeets.meetFails CalStatus.noConfusion (some E_DISWAI)) (hrelease.countUp cal)
      (hcounts.same (waitRelease_wrdvno _ cal) rfl fun u => setCal_ne_idle (Or.inr hN))
  · have hfree : ∀ q ptn sz, ((viewOf log).setAcp t none).cal cal ≠ .calling q ptn sz :=
      not_calling_of_met hcal
    have hw' : PorTcb.waiting { (s.sendMessage cal t msg cmsgsz).tcb cal with
        winfo :=
          ⟨(s.tcb cal).wrdvno, ((s.sendMessage cal t msg cmsgsz).tcb cal).winfo.msg,
            (s.porcb p).maxrmsz⟩
        nodiswai := (s.porcb p).poratr &&& TA_NODISWAI ≠ 0 } = true := hwaiting.trans hw
    have hready := hagrees.readyRdvTcb hfree hnone' hw' (hspec.trans hwspec)
    rw [hlimits] at hmeets
    exact inv.grow hmeets (hready.countUp cal)
      (hcounts.same (setTcb_wrdvno (by rfl)) rfl fun u => setCal_ne_idle (Or.inr hN))

theorem PorInv.fwdWait (inv : PorInv N s log) (hrdv : ¬PorState.notRdv rdvno (s.tcb cal))
    (hp : (s.porcb p).porid ≠ 0) (hfits : cmsgsz ≤ (s.porcb p).maxcmsz)
    (hmax : (s.porcb p).maxrmsz ≤ (s.tcb cal).winfo.size) (hsz : cmsgsz ≤ (s.tcb cal).winfo.size)
    (msg : ℕ) :
    Keeps N log (s.fwdWait p calptn rdvno msg cmsgsz cal) := by
  obtain ⟨hcal, hnone, hw, -⟩ := inv.agrees.met hrdv
  have hN : cal < N := inv.counts.callers cal (by rw [hcal]; exact CalStatus.noConfusion)
  have hlimits := inv.agrees.limits p hp
  unfold PorState.fwdWait
  refine keeps_ite (fun _ => inv.fwdDiswai hw) fun _ => ?_
  have hst : PorTcb.calStatus { s.tcb cal with
      wspec := s.wspecCal p
      wid := p
      winfo := ⟨calptn, (s.tcb cal).winfo.msg, cmsgsz⟩
      nodiswai := (s.porcb p).poratr &&& TA_NODISWAI ≠ 0
      timed := false } = .calling p calptn cmsgsz := calStatus_wspecCal hw (wspecCal_tskwait s p)
  have hagrees := inv.agrees.callInsert (not_calling_of_met hcal) hnone hst hp hfits
  refine inv.grow (leads_forwards hcal (by rwa [hlimits]) hsz (by rwa [hlimits]) calptn)
    (hagrees.memcpy _ _ _) ?_
  exact inv.counts.same (setTcb_wrdvno (by rfl)) rfl fun u => setCal_ne_idle (Or.inr hN)

theorem PorInv.tkFwdPor (inv : PorInv N s log) (maxTskid maxDomid : ℕ) (idOk indp : Bool)
    (prot protFwd : ER) (msg : ℕ) :
    Keeps N log (s.tkFwdPor maxTskid maxDomid p idOk indp prot protFwd calptn rdvno msg
      cmsgsz) := by
  unfold PorState.tkFwdPor
  refine keeps_ite (fun _ => inv.refuse _) fun _ => keeps_ite (fun _ => inv.refuse _) fun _ =>
    keeps_ite (fun _ => inv.refuse _) fun _ => keeps_ite (fun _ => inv.refuse _) fun _ =>
    keeps_ite (fun _ => inv.refuse _) fun _ => keeps_ite (fun _ => inv.refuse _) fun hp =>
    keeps_ite (fun _ => inv.refuse _) fun _ => keeps_ite (fun _ => inv.refuse _) fun _ =>
    keeps_ite (fun _ => inv.refuse _) fun hfits => keeps_ite (fun _ => inv.refuse _) fun hrdv =>
    keeps_ite (fun _ => inv.refuse _) fun hmax => keeps_ite (fun _ => inv.refuse _) fun hsz => ?_
  cases hsearch : s.searchPtn calptn (s.porcb p).accept_queue with
  | some t =>
    obtain ⟨ht, hptn⟩ := searchPtn_some hsearch
    exact inv.fwdMeet hrdv hp (not_lt.mp hfits) (not_lt.mp hmax) (not_lt.mp hsz) ht hptn msg
  | none => exact inv.fwdWait hrdv hp (not_lt.mp hfits) (not_lt.mp hmax) (not_lt.mp hsz) msg

/-! ## Replies -/

theorem PorInv.tkRplRdv (inv : PorInv N s log) (maxTskid maxDomid : ℕ) (indp : Bool) (msg : ℕ)
    (rmsgsz : ℤ) :
    Keeps N log (s.tkRplRdv maxTskid maxDomid indp rdvno msg rmsgsz) := by
  unfold PorState.tkRplRdv
  refine keeps_ite (fun _ => inv.refuse _) fun _ => keeps_ite (fun _ => inv.refuse _) fun _ =>
    keeps_ite (fun _ => inv.refuse _) fun _ => keeps_ite (fun _ => inv.refuse _) fun hrdv =>
    keeps_ite (fun _ => inv.refuse _) fun hsz => ?_
  obtain ⟨hcal, hnone, -, -⟩ := inv.agrees.met hrdv
  have hagrees :
    Agrees ((s.memcpy (s.tcb (indexTsk (getTskidRdvno rdvno))).winfo.msg msg rmsgsz).waitRelease
      (indexTsk (getTskidRdvno rdvno))) ((viewOf log).release (indexTsk (getTskidRdvno rdvno))) :=
    (inv.agrees.memcpy _ _ _).waitRelease _
  rw [PorView.release_cal hnone] at hagrees
  refine inv.grow ⟨⟨⟨_, hcal, not_lt.mp hsz⟩, trivial⟩, rfl⟩ hagrees ?_
  exact (inv.counts.memcpy _ _ _).same (waitRelease_wrdvno _ _) rfl fun u =>
    setCal_ne_idle (Or.inl rfl)

/-! ## Ports -/

theorem setPorcb_porcb_of_ne {q : ℕ} (h : q ≠ p) : (s.setPorcb p porcb).porcb q = s.porcb q :=
  Function.update_of_ne h _ _

theorem setPorcb_porcb_self : (s.setPorcb p porcb).porcb p = porcb := Function.update_self ..

/-- A change of a port that leaves the same tasks in its queues. -/
theorem Agrees.setPorcb (h : Agrees s v) (hcall : porcb.call_queue.Perm (s.porcb p).call_queue)
    (haccept : porcb.accept_queue = (s.porcb p).accept_queue)
    (hlimits : porcb.porid ≠ 0 → v.limits p = (porcb.maxcmsz, porcb.maxrmsz))
    (hclosed : porcb.porid = 0 → porcb.call_queue = [] ∧ porcb.accept_queue = []) :
    Agrees (s.setPorcb p porcb) v := by
  have hqueues (q : ℕ) : ((s.setPorcb p porcb).porcb q).call_queue.Perm (s.porcb q).call_queue ∧
      ((s.setPorcb p porcb).porcb q).accept_queue = (s.porcb q).accept_queue := by
    by_cases hq : q = p
    · subst hq
      rw [setPorcb_porcb_self]
      exact ⟨hcall, haccept⟩
    · rw [setPorcb_porcb_of_ne hq]
      exact ⟨List.Perm.refl _, rfl⟩
  refine ⟨h.cal, h.acp, fun q u => ?_, fun q u => ?_, fun q => ?_, fun q => ?_, fun q hq => ?_,
    fun q hq => ?_, h.fits, h.timed⟩
  · rw [(hqueues q).1.mem_iff, h.call_queue]
  · rw [(hqueues q).2, h.accept_queue]
  · rw [(hqueues q).1.nodup_iff]
    exact h.call_nodup q
  · rw [(hqueues q).2]
    exact h.accept_nodup q
  · by_cases hqp : q = p
    · subst hqp
      rw [setPorcb_porcb_self] at hq ⊢
      exact hlimits hq
    · rw [setPorcb_porcb_of_ne hqp] at hq ⊢
      exact h.limits q hq
  · by_cases hqp : q = p
    · subst hqp
      rw [setPorcb_porcb_self] at hq ⊢
      exact hclosed hq
    · rw [setPorcb_porcb_of_ne hqp] at hq ⊢
      exact h.closed q hq

theorem Agrees.closePort (h : Agrees s v) (hcall : (s.porcb p).call_queue = [])
    (haccept : (s.porcb p).accept_queue = []) :
    Agrees (s.setPorcb p { s.porcb p with porid := 0 }) v := by
  apply h.setPorcb
  · exact List.Perm.refl _
  · rfl
  · exact fun h => absurd rfl h
  · exact fun _ => ⟨hcall, haccept⟩

theorem Agrees.setLimits (h : Agrees s v) (hp : (s.porcb p).porid = 0) (limits : ℤ × ℤ) :
    Agrees s { v with limits := Function.update v.limits p limits } := by
  refine ⟨h.cal, h.acp, h.call_queue, h.accept_queue, h.call_nodup, h.accept_nodup,
    fun q hq => ?_, h.closed, fun u q ptn sz hu => ?_, h.timed⟩
  · have hne : q ≠ p := fun e => hq (e ▸ hp)
    rw [← h.limits q hq]
    exact Function.update_of_ne hne _ _
  · have hne : q ≠ p := fun e => by
      have hmem : u ∈ (s.porcb q).call_queue := (h.call_queue q u).mpr ⟨ptn, sz, hu⟩
      rw [e, (h.closed p hp).1] at hmem
      exact List.not_mem_nil hmem
    have heq : Function.update v.limits p limits q = v.limits q := Function.update_of_ne hne _ _
    show sz ≤ (Function.update v.limits p limits q).1
    rw [heq]
    exact h.fits u q ptn sz hu

theorem PorInv.tkCrePor (inv : PorInv N s log) (hp : (s.porcb p).porid = 0) {porid : BitVec 32}
    (hporid : porid ≠ 0) (poratr : ℕ) (maxcmsz maxrmsz : ℤ) :
    Keeps N log (s.tkCrePor p porid poratr maxcmsz maxrmsz) := by
  unfold PorState.tkCrePor
  refine keeps_ite (fun _ => inv.refuse _) fun _ => keeps_ite (fun _ => inv.refuse _) fun _ => ?_
  obtain ⟨hcall, haccept⟩ := inv.agrees.closed p hp
  have hagrees : Agrees (s.setPorcb p ⟨[], porid, poratr, [], maxcmsz, maxrmsz⟩)
      { viewOf log with limits := Function.update (viewOf log).limits p (maxcmsz, maxrmsz) } := by
    apply (inv.agrees.setLimits hp (maxcmsz, maxrmsz)).setPorcb
    · rw [hcall]
    · exact haccept.symm
    · exact fun _ => Function.update_self ..
    · exact fun h => absurd h hporid
  exact inv.grow ⟨⟨trivial, trivial⟩, rfl⟩ hagrees ⟨inv.counts.number, inv.counts.index,
    inv.counts.callers⟩

theorem diff_self_nil (queue : List Tsk) : queue.diff queue = [] := by
  induction queue with
  | nil => rfl
  | cons t queue ih =>
    rw [List.diff_cons, List.erase_cons_head]
    exact ih

/-- The tasks of a queue are released one after the other. -/
theorem PorInv.waitDelete {queue : List Tsk} (inv : PorInv N s log) (hnodup : queue.Nodup)
    (hw : ∀ t ∈ queue, (s.tcb t).waiting = true) :
    PorInv N (PorState.waitDelete queue s).1 (log ++ (PorState.waitDelete queue s).2) ∧
      ∀ p, (PorState.waitDelete queue s).1.porcb p = { s.porcb p with
        call_queue := (s.porcb p).call_queue.diff queue
        accept_queue := (s.porcb p).accept_queue.diff queue } := by
  induction queue generalizing s log with
  | nil => exact ⟨inv.refuse none, fun p => rfl⟩
  | cons t queue ih =>
    obtain ⟨htq, hnodup⟩ := List.nodup_cons.mp hnodup
    obtain ⟨inv', -⟩ := inv.waitReleaseNg (hw t List.mem_cons_self) E_DLT
    have hw' : ∀ u ∈ queue, ((s.waitReleaseNg t E_DLT).1.tcb u).waiting = true := by
      intro u hu
      have hne : u ≠ t := fun e => htq (e ▸ hu)
      have htcb : (s.waitReleaseNg t E_DLT).1.tcb u = s.tcb u := setTcb_tcb_of_ne hne
      rw [htcb]
      exact hw u (List.mem_cons_of_mem t hu)
    obtain ⟨hinv, hporcb⟩ := ih inv' hnodup hw'
    rw [List.append_assoc] at hinv
    refine ⟨hinv, fun q => ?_⟩
    rw [List.diff_cons, List.diff_cons]
    exact hporcb q

theorem PorInv.tkDelPor (inv : PorInv N s log) (idOk indp : Bool) (prot : ER) :
    Keeps N log (s.tkDelPor p idOk indp prot) := by
  unfold PorState.tkDelPor
  refine keeps_ite (fun _ => inv.refuse _) fun _ => keeps_ite (fun _ => inv.refuse _) fun _ =>
    keeps_ite (fun _ => inv.refuse _) fun _ => keeps_ite (fun _ => inv.refuse _) fun _ => ?_
  obtain ⟨inv₁, hporcb₁⟩ := inv.waitDelete (inv.agrees.call_nodup p) fun t ht =>
    (inv.agrees.caller ht).2.2.1
  obtain ⟨inv₂, hporcb₂⟩ := inv₁.waitDelete (inv₁.agrees.accept_nodup p) fun t ht =>
    (inv₁.agrees.acceptor ht).2.2.1
  rw [List.append_assoc] at inv₂
  have hcall :
    ((PorState.waitDelete ((PorState.waitDelete (s.porcb p).call_queue s).1.porcb p).accept_queue
      (PorState.waitDelete (s.porcb p).call_queue s).1).1.porcb p).call_queue = [] := by
    rw [hporcb₂ p, hporcb₁ p]
    show ((s.porcb p).call_queue.diff (s.porcb p).call_queue).diff _ = []
    rw [diff_self_nil, List.nil_diff]
  have haccept :
    ((PorState.waitDelete ((PorState.waitDelete (s.porcb p).call_queue s).1.porcb p).accept_queue
      (PorState.waitDelete (s.porcb p).call_queue s).1).1.porcb p).accept_queue = [] := by
    rw [hporcb₂ p]
    exact diff_self_nil _
  exact ⟨inv₂.right, inv₂.agrees.closePort hcall haccept, ⟨inv₂.counts.number, inv₂.counts.index,
    inv₂.counts.callers⟩⟩

end SmpTKernel
