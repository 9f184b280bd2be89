import SmpTKernel.DeviceRequestCalls

/-!
# Device requests are freed once, and aborts are counted

The abort count is right when it is taken, and every return keeps it right, until the closing task
goes on.
-/

namespace SmpTKernel

open Census

open OpnReqs (chain link)

variable {s s' : OpnReqs} {t : Tsk} {r reqid : ℕ} {l : List ℕ} {p : ReqPos} {ercd : ER}

/-! ## The close -/

/-- Between the abort and the reset of `abort_tskid`. -/
def ReqPos.Aborts : ReqPos → Prop
  | aborted => True
  | toSync => True
  | inSync => True
  | synced => True
  | ended => True
  | _ => False

/-- `abort_cnt` is the number of tasks in the driver. -/
def OpnReqs.Counted (s : OpnReqs) : Prop := ∃ n : ℕ, s.abort_cnt = n ∧ Count s.pos ReqPos.InCall n

/-- Nobody is in the driver, and no signal is pending. -/
def OpnReqs.Quiet (s : OpnReqs) (t : Tsk) : Prop :=
  s.abort_tskid = 0 ∧ (∀ t', ¬(s.pos t').InCall) ∧ s.mask t = false

/-- What is true of a task at each place of the close. -/
def CloseAt (s : OpnReqs) (t : Tsk) : ReqPos → Prop
  | .outside => s.mask t = false
  | .inExec _ => s.mask t = false
  | .inWait .. => s.mask t = false
  | .closing => s.abort_tskid = 0 ∧ s.mask t = false
  | .aborted => s.abort_tskid = t ∧ s.Counted ∧ s.mask t = false
  | .toSync => s.abort_tskid = t ∧ s.Counted ∧ (s.mask t ↔ s.abort_cnt = 0)
  | .inSync => s.abort_tskid = t ∧ s.Counted ∧ s.mask t = false ∧ 0 < s.abort_cnt
  | .synced => s.abort_tskid = t ∧ s.Counted ∧ s.mask t = true ∧ s.abort_cnt = 0
  | .ended => s.abort_tskid = t ∧ s.Counted ∧ s.mask t = false ∧ s.abort_cnt = 0
  | .draining => s.Quiet t
  | .inDrain r => s.Quiet t ∧ r ∈ s.requestq
  | .closed => s.Quiet t ∧ s.requestq = []

/-- Every signal has been received, or is pending. -/
def SignalLog (s : OpnReqs) : Prop :=
  ∀ t, s.log.count (.signalled t) = s.log.count (.received t) + if s.mask t then 1 else 0

structure CloseInv (s : OpnReqs) : Prop where
  resid : ∀ t, (s.pos t).Closes → s.resid = 0
  task : ∀ t, (s.pos t).Closes → 0 < t
  only : ∀ t t', (s.pos t).Closes → (s.pos t').Closes → t = t'
  aborts : s.abort_tskid ≠ 0 → (s.pos s.abort_tskid).Aborts
  place : ∀ t, CloseAt s t (s.pos t)
  signals : SignalLog s

theorem closes_of_aborts {p : ReqPos} (h : p.Aborts) : p.Closes := by
  cases p <;> first | exact trivial | exact h.elim

theorem not_inCall_of_closes {p : ReqPos} (h : p.Closes) : ¬p.InCall := by
  cases p <;> first | exact id | exact h.elim

theorem closeAt_of_not_closes (hp : ¬p.Closes) : CloseAt s t p ↔ s.mask t = false := by
  cases p <;> first | exact Iff.rfl | exact absurd trivial hp

theorem signalLog_same (h : SignalLog s) (hmask : s'.mask = s.mask)
    (hlog : ∀ t, s'.log.count (.signalled t) = s.log.count (.signalled t) ∧
      s'.log.count (.received t) = s.log.count (.received t)) : SignalLog s' := by
  intro t
  rw [(hlog t).1, (hlog t).2, hmask]
  exact h t

theorem CloseInv.still (inv : CloseInv s) (hres : s.resid ≠ 0)
    (hpos : ∀ t, (s'.pos t).Closes → (s.pos t).Closes) (habort : s'.abort_tskid = s.abort_tskid)
    (hmask : s'.mask = s.mask) (hsig : SignalLog s') :
    CloseInv s' := by
  have hnone : ∀ t, ¬(s.pos t).Closes := fun t h => hres (inv.resid t h)
  refine ⟨fun t h => absurd (hpos t h) (hnone t), fun t h => absurd (hpos t h) (hnone t),
    fun t _ h => absurd (hpos t h) (hnone t), fun h => ?_, fun t => ?_, hsig⟩
  · rw [habort] at h
    exact absurd (closes_of_aborts (inv.aborts h)) (hnone _)
  · rw [closeAt_of_not_closes fun h => hnone t (hpos t h), hmask]
    exact (closeAt_of_not_closes (hnone t)).mp (inv.place t)

theorem CloseInv.goOn (inv : CloseInv s) (honly : ∀ t', t' ≠ t → ¬(s.pos t').Closes) (ht : 0 < t)
    (hpos : s'.pos = Function.update s.pos t p) (hres : s'.resid = 0)
    (habort : s'.abort_tskid ≠ 0 → s'.abort_tskid = t ∧ p.Aborts)
    (hmask : ∀ t', t' ≠ t → s'.mask t' = s.mask t') (hat : CloseAt s' t p) (hsig : SignalLog s') :
    CloseInv s' := by
  have hself : s'.pos t = p := by
    rw [hpos, Function.update_self]
  have hothers : ∀ {t'}, t' ≠ t → s'.pos t' = s.pos t' :=
    fun h => by rw [hpos, Function.update_of_ne h]
  have hclose : ∀ {t'}, (s'.pos t').Closes → t' = t := by
    intro t' h
    by_contra hne
    rw [hothers hne] at h
    exact honly t' hne h
  refine ⟨fun _ _ => hres, fun t' h => (hclose h).symm ▸ ht, fun t₁ t₂ h₁ h₂ =>
    (hclose h₁).trans (hclose h₂).symm, fun h => ?_, fun t' => ?_, hsig⟩
  · rw [(habort h).1, hself]
    exact (habort h).2
  · rcases eq_or_ne t' t with rfl | hne
    · rw [hself]
      exact hat
    · rw [hothers hne, closeAt_of_not_closes (honly t' hne), hmask t' hne]
      exact (closeAt_of_not_closes (honly t' hne)).mp (inv.place t')

theorem counted_update (h : Count s.pos ReqPos.InCall n) (ht : (s.pos t).Closes) (hp : p.Closes) :
    Count (Function.update s.pos t p) ReqPos.InCall n :=
  h.stay (iff_of_false (not_inCall_of_closes hp) (not_inCall_of_closes ht))

/-! ### Returns -/

theorem notifyAbort_none (h : s.abort_tskid = 0) : s.notifyAbort = s := by
  unfold OpnReqs.notifyAbort
  rw [if_neg (by rw [h]; exact lt_irrefl 0)]

theorem notifyAbort_more (h : s.abort_tskid ≠ 0) (hcnt : s.abort_cnt ≠ 1) :
    s.notifyAbort = { s with abort_cnt := s.abort_cnt - 1 } := by
  unfold OpnReqs.notifyAbort
  rw [if_pos (Nat.pos_of_ne_zero h)]
  exact if_neg (show ¬s.abort_cnt - 1 = 0 by omega)

theorem notifyAbort_last (h : s.abort_tskid ≠ 0) (hcnt : s.abort_cnt = 1) :
    s.notifyAbort = { s with abort_cnt := 0 }.syncSignal s.abort_tskid := by
  unfold OpnReqs.notifyAbort
  rw [if_pos (Nat.pos_of_ne_zero h)]
  simp [hcnt]

/-- A driver call of `t` returns: the task leaves the driver and tells a closing task. -/
structure OpnReqs.Leaves (s s' : OpnReqs) (t : Tsk) : Prop where
  pos : s'.pos = Function.update s.notifyAbort.pos t .outside
  resid : s'.resid = s.resid
  abort : s'.abort_tskid = s.abort_tskid
  cnt : s'.abort_cnt = s.notifyAbort.abort_cnt
  mask : s'.mask = s.notifyAbort.mask
  log : ∀ t, s'.log.count (.signalled t) = s.notifyAbort.log.count (.signalled t) ∧
    s'.log.count (.received t) = s.notifyAbort.log.count (.received t)

/-- The place of a task that closes, when nobody waits for the abort and somebody is in the
driver. -/
theorem CloseInv.closing (inv : CloseInv s) (hcall : (s.pos t).InCall) (h0 : s.abort_tskid = 0)
    {c : Tsk} (hc : (s.pos c).Closes) : s.pos c = .closing := by
  have hat := inv.place c
  cases hp : s.pos c with
  | closing => rfl
  | aborted | toSync | inSync | synced | ended =>
    rw [hp] at hat
    exact absurd (h0.symm.trans hat.1) (inv.task c hc).ne
  | draining =>
    rw [hp] at hat
    exact absurd hcall (hat.2.1 t)
  | inDrain r =>
    rw [hp] at hat
    exact absurd hcall (hat.1.2.1 t)
  | closed =>
    rw [hp] at hat
    exact absurd hcall (hat.1.2.1 t)
  | outside | inExec | inWait =>
    rw [hp] at hc
    exact hc.elim

/-- Nobody waits for the abort. -/
theorem CloseInv.ret_alone (inv : CloseInv s) (hcall : (s.pos t).InCall) (hl : s.Leaves s' t)
    (h0 : s.abort_tskid = 0) :
    CloseInv s' := by
  have ht : ¬(s.pos t).Closes := fun h => not_inCall_of_closes h hcall
  obtain ⟨hpos, hres, habort, -, hmask, hlog⟩ := hl
  rw [notifyAbort_none h0] at hpos hmask hlog
  have hclose : ∀ {t'}, (s'.pos t').Closes → (s.pos t').Closes := by
    intro t' h
    rw [hpos] at h
    rcases eq_or_ne t' t with rfl | hne
    · rw [Function.update_self] at h
      exact h.elim
    · rwa [Function.update_of_ne hne] at h
  refine ⟨fun t' h => hres.trans (inv.resid t' (hclose h)), fun t' h => inv.task t' (hclose h),
    fun t₁ t₂ h₁ h₂ => inv.only t₁ t₂ (hclose h₁) (hclose h₂), fun h => absurd (habort.trans h0) h,
    fun t' => ?_, signalLog_same inv.signals hmask hlog⟩
  rw [hpos]
  rcases eq_or_ne t' t with rfl | hne
  · rw [Function.update_self]
    exact (congrFun hmask t').trans ((closeAt_of_not_closes ht).mp (inv.place t'))
  · rw [Function.update_of_ne hne]
    have hat := inv.place t'
    by_cases hc : (s.pos t').Closes
    · rw [inv.closing hcall h0 hc] at hat ⊢
      exact ⟨habort.trans h0, (congrFun hmask t').trans hat.2⟩
    · rw [closeAt_of_not_closes hc] at hat ⊢
      exact (congrFun hmask t').trans hat

/-- The task `c` waits until the `n` tasks in the driver have returned. -/
structure OpnReqs.Awaits (s : OpnReqs) (c : Tsk) (n : ℕ) : Prop where
  tskid : s.abort_tskid = c
  aborts : (s.pos c).Aborts
  task : 0 < c
  only : ∀ t, t ≠ c → ¬(s.pos t).Closes
  cnt : s.abort_cnt = n
  count : Count s.pos ReqPos.InCall n

theorem CloseInv.awaits (inv : CloseInv s) (h0 : s.abort_tskid ≠ 0) :
    ∃ n, s.Awaits s.abort_tskid n := by
  have haborts := inv.aborts h0
  have hcloses := closes_of_aborts haborts
  have hat := inv.place s.abort_tskid
  obtain ⟨n, hn, hcount⟩ : s.Counted := by
    cases hp : s.pos s.abort_tskid with
    | aborted | toSync | inSync | synced | ended =>
      rw [hp] at hat
      exact hat.2.1
    | outside | inExec | inWait | closing | draining | inDrain | closed =>
      rw [hp] at haborts
      exact haborts.elim
  exact ⟨n, rfl, haborts, inv.task _ hcloses, fun t hne h => hne (inv.only t _ h hcloses),
    hn, hcount⟩

section Awaited

variable {c : Tsk} {n : ℕ}

/-- It comes to `p`, and the task that has returned is outside. -/
theorem CloseInv.advance (inv : CloseInv s) (hcall : (s.pos t).InCall) (aw : s.Awaits c n)
    (hp : p.Aborts) (hpos : s'.pos = Function.update (Function.update s.pos c p) t .outside)
    (hres : s'.resid = s.resid) (habort : s'.abort_tskid = s.abort_tskid)
    (hcnt : s'.abort_cnt = (n - 1 : ℕ)) (hmask : ∀ t', t' ≠ c → s'.mask t' = s.mask t')
    (hat : s'.Counted → CloseAt s' c p) (hsig : SignalLog s') :
    CloseInv s' := by
  have hcloses := closes_of_aborts aw.aborts
  have hct : c ≠ t := by
    rintro rfl
    exact not_inCall_of_closes hcloses hcall
  have hself : s'.pos c = p := by
    rw [hpos, Function.update_of_ne hct, Function.update_self]
  have hothers : ∀ t', t' ≠ c → s'.pos t' = if t' = t then .outside else s.pos t' := by
    intro t' hne
    rw [hpos]
    rcases eq_or_ne t' t with rfl | hne'
    · rw [Function.update_self, if_pos rfl]
    · rw [Function.update_of_ne hne', Function.update_of_ne hne, if_neg hne']
  have hnot : ∀ t', t' ≠ c → ¬(s'.pos t').Closes := by
    intro t' hne
    rw [hothers t' hne]
    split_ifs
    · exact id
    · exact aw.only t' hne
  have hclose : ∀ {t'}, (s'.pos t').Closes → t' = c := fun h => by_contra fun hne => hnot _ hne h
  have hcounted : s'.Counted := by
    refine ⟨n - 1, hcnt, ?_⟩
    rw [hpos]
    refine (counted_update aw.count hcloses (closes_of_aborts hp)).leave ?_ id
    rw [Function.update_of_ne hct.symm]
    exact hcall
  refine ⟨fun t' h => hres.trans (inv.resid c hcloses), fun t' h => (hclose h).symm ▸ aw.task,
    fun t₁ t₂ h₁ h₂ => (hclose h₁).trans (hclose h₂).symm, fun _ => ?_, fun t' => ?_, hsig⟩
  · rw [habort, aw.tskid, hself]
    exact hp
  · rcases eq_or_ne t' c with rfl | hne
    · rw [hself]
      exact hat hcounted
    · rw [closeAt_of_not_closes (hnot t' hne), hmask t' hne]
      exact (closeAt_of_not_closes (aw.only t' hne)).mp (inv.place t')

/-- There are others in the driver. -/
theorem CloseInv.ret_more (inv : CloseInv s) (hcall : (s.pos t).InCall) (hl : s.Leaves s' t)
    (aw : s.Awaits c n) (hmore : s.abort_cnt ≠ 1) : CloseInv s' := by
  have hn := aw.cnt
  have hnpos : 0 < n := aw.count.pos hcall
  obtain ⟨hpos, hres, habort, hcnt, hmask, hlog⟩ := hl
  have h0 : s.abort_tskid ≠ 0 := aw.tskid ▸ aw.task.ne'
  rw [notifyAbort_more h0 hmore] at hpos hcnt hmask hlog
  have hcnt' : s'.abort_cnt = (n - 1 : ℕ) := by
    rw [hcnt]
    show s.abort_cnt - 1 = _
    omega
  have hmall : ∀ t', s'.mask t' = s.mask t' := fun t' => congrFun hmask t'
  refine inv.advance hcall aw aw.aborts (by rw [hpos, Function.update_eq_self]) hres habort hcnt'
    (fun t' _ => hmall t')
    (fun h => ?_) (signalLog_same inv.signals hmask hlog)
  have habort' := habort.trans aw.tskid
  have hat := inv.place c
  have haborts := aw.aborts
  cases hp : s.pos c with
  | aborted =>
    rw [hp] at hat
    exact ⟨habort', h, (hmall c).trans hat.2.2⟩
  | toSync =>
    rw [hp] at hat
    refine ⟨habort', h, iff_of_false ?_ (by omega)⟩
    rw [hmall c, hat.2.2]
    omega
  | inSync =>
    rw [hp] at hat
    exact ⟨habort', h, (hmall c).trans hat.2.2.1, by omega⟩
  | synced | ended =>
    -- nobody is in the driver any more
    rw [hp] at hat
    have := hat.2.2.2
    omega
  | outside | inExec | inWait | closing | draining | inDrain | closed =>
    rw [hp] at haborts
    exact haborts.elim

theorem SignalLog.signal (h : SignalLog s) (hfalse : s.mask c = false)
    (hmask : s'.mask = Function.update s.mask c true)
    (hlog : ∀ t, s'.log.count (.signalled t) = (s.log ++ [ReqEvent.signalled c]).count
      (ReqEvent.signalled t) ∧
      s'.log.count (.received t) = (s.log ++ [ReqEvent.signalled c]).count (ReqEvent.received t)) :
    SignalLog s' := by
  intro t
  rw [(hlog t).1, (hlog t).2, hmask, count_concat, count_concat, h t,
    if_neg (show ReqEvent.signalled c ≠ .received t from ReqEvent.noConfusion)]
  rcases eq_or_ne c t with rfl | hne
  · rw [hfalse, Function.update_self, if_neg Bool.false_ne_true, if_pos rfl, if_pos rfl]
  · rw [Function.update_of_ne hne.symm, if_neg fun h => hne (ReqEvent.signalled.inj h),
      Nat.add_zero, Nat.add_zero]

/-- The last request returns, and the closing task is signalled. -/
theorem CloseInv.ret_last (inv : CloseInv s) (hcall : (s.pos t).InCall) (hl : s.Leaves s' t)
    (aw : s.Awaits c n) (hlast : s.abort_cnt = 1) (hop : s.pos c ≠ .aborted) : CloseInv s' := by
  have hn := aw.cnt
  obtain ⟨hpos, hres, habort, hcnt, hmask, hlog⟩ := hl
  have h0 : s.abort_tskid ≠ 0 := aw.tskid ▸ aw.task.ne'
  have habort' := habort.trans aw.tskid
  rw [notifyAbort_last h0 hlast, aw.tskid] at hpos hcnt hmask hlog
  have hmself : s'.mask c = true := by
    rw [hmask]
    exact Function.update_self ..
  have hmothers : ∀ t', t' ≠ c → s'.mask t' = s.mask t' := by
    intro t' hne
    rw [hmask]
    exact Function.update_of_ne hne ..
  have hcnt' : s'.abort_cnt = (n - 1 : ℕ) := by
    rw [hcnt]
    show (0 : ℤ) = _
    omega
  have hat := inv.place c
  have haborts := aw.aborts
  cases hp : s.pos c with
  | aborted => exact absurd hp hop
  | toSync =>
    rw [hp] at hat
    have hfalse : s.mask c = false := by
      by_contra h
      have := hat.2.2.mp (Bool.eq_true_of_not_eq_false h)
      omega
    refine inv.advance (p := .toSync) hcall aw trivial ?_ hres habort hcnt' hmothers
      (fun h => ⟨habort', h, iff_of_true hmself hcnt⟩) (inv.signals.signal hfalse hmask hlog)
    have hnot : s.pos c ≠ .inSync := by
      rw [hp]
      exact ReqPos.noConfusion
    rw [hpos, ← hp, Function.update_eq_self]
    exact congrArg (fun f : Tsk → ReqPos => Function.update f t ReqPos.outside) (if_neg hnot)
  | inSync =>
    rw [hp] at hat
    refine inv.advance (p := .synced) hcall aw trivial ?_ hres habort hcnt' hmothers
      (fun h => ⟨habort', h, hmself, hcnt⟩) (inv.signals.signal hat.2.2.1 hmask hlog)
    rw [hpos]
    exact congrArg (fun f : Tsk → ReqPos => Function.update f t ReqPos.outside) (if_pos hp)
  | synced | ended =>
    rw [hp] at hat
    have := hat.2.2.2
    omega
  | outside | inExec | inWait | closing | draining | inDrain | closed =>
    rw [hp] at haborts
    exact haborts.elim

end Awaited

theorem CloseInv.ret (inv : CloseInv s) (hcall : (s.pos t).InCall)
    (hop : s.abort_tskid ≠ 0 → s.abort_cnt = 1 → s.pos s.abort_tskid ≠ .aborted)
    (hl : s.Leaves s' t) :
    CloseInv s' := by
  by_cases h0 : s.abort_tskid = 0
  · exact inv.ret_alone hcall hl h0
  · obtain ⟨n, aw⟩ := inv.awaits h0
    by_cases hlast : s.abort_cnt = 1
    · exact inv.ret_last hcall hl aw hlast (hop h0 hlast)
    · exact inv.ret_more hcall hl aw hlast

/-! ## Steps -/

/-- The tasks in the driver, and the close of the descriptor. -/
structure ReqInv (s : OpnReqs) : Prop where
  calls : CallInv s
  close : CloseInv s

theorem resid_of_checkDevdesc {rid : ℕ} {mode : BitVec 32} (h : ¬s.checkDevdesc rid mode < E_OK) :
    s.resid ≠ 0 := by
  intro h0
  rw [OpnReqs.checkDevdesc, if_pos h0] at h
  exact h (by decide)

theorem signals_taken (log : List ReqEvent) (r : ℕ) (t : Tsk) :
    (log ++ [ReqEvent.taken r]).count (.signalled t) = log.count (.signalled t) ∧
      (log ++ [ReqEvent.taken r]).count (.received t) = log.count (.received t) := by
  rw [count_concat, count_concat, if_neg (show ReqEvent.taken r ≠ .signalled t from
    ReqEvent.noConfusion), if_neg (show ReqEvent.taken r ≠ .received t from ReqEvent.noConfusion)]
  exact ⟨rfl, rfl⟩

theorem signals_freed (log : List ReqEvent) (r : ℕ) (t : Tsk) :
    (log ++ [ReqEvent.freed r]).count (.signalled t) = log.count (.signalled t) ∧
      (log ++ [ReqEvent.freed r]).count (.received t) = log.count (.received t) := by
  rw [count_concat, count_concat, if_neg (show ReqEvent.freed r ≠ .signalled t from
    ReqEvent.noConfusion), if_neg (show ReqEvent.freed r ≠ .received t from ReqEvent.noConfusion)]
  exact ⟨rfl, rfl⟩

theorem ReqInv.request (inv : ReqInv s) {rid : ℕ} {start cmd : ℤ} {brk tsp : ER} {new : Option ℕ}
    (legal : (ReqOp.request t rid start cmd brk new tsp).Legal s) :
    ReqInv (s.request t rid start cmd brk new tsp).2 := by
  obtain ⟨ht, htpos, hnew⟩ := legal
  unfold OpnReqs.request
  by_cases hbrk : brk < E_OK
  · rw [if_pos hbrk]
    exact inv
  rw [if_neg hbrk]
  dsimp only
  generalize (if start ≤ -0x00010000 ∧ start ≥ -0x7fffffff then 0 else if cmd = TDC_READ then
    TD_READ else TD_WRITE) = m
  by_cases hchk : s.checkDevdesc rid m < E_OK
  · rw [if_pos hchk]
    exact inv
  rw [if_neg hchk]
  have hres := resid_of_checkDevdesc hchk
  cases new with
  | none => exact inv
  | some r =>
    obtain ⟨hr0, hr⟩ := hnew r rfl
    have htaken := blockLog_taken inv.calls.blocks hr
    by_cases htsp : tsp < E_OK
    · simp only [if_pos htsp]
      have hnodup : (s.requestq ++ [r]).Nodup := by
        rw [← List.concat_eq_append]
        exact inv.calls.nodup.concat hr
      have hreq : (s.requestq ++ [r]).erase r = s.requestq := by
        rw [List.erase_append_right _ hr, List.erase_cons_head, List.append_nil]
      constructor
      · refine inv.calls.frame (fun _ _ _ => Iff.rfl) hreq rfl (fun r' hr' => ?_) rfl ?_
        · exact Function.update_of_ne (ne_of_mem_of_not_mem hr' hr) ..
        · exact blockLog_freed htaken hnodup (List.mem_append_right _ (List.mem_singleton_self r))
      · refine inv.close.still hres (fun _ h => h) rfl rfl (signalLog_same inv.close.signals rfl
          fun t' => ?_)
        have h₁ := signals_taken s.log r t'
        have h₂ := signals_freed (s.log ++ [.taken r]) r t'
        exact ⟨h₂.1.trans h₁.1, h₂.2.trans h₁.2⟩
    · simp only [if_neg htsp]
      constructor
      · refine inv.calls.start ht htpos hr hr0 rfl rfl rfl (fun r' hne =>
          Function.update_of_ne hne ..) rfl ?_
        exact blockLog_same htaken rfl fun _ => ⟨rfl, rfl⟩
      · refine inv.close.still hres (fun t' h => ?_) rfl rfl
          (signalLog_same inv.close.signals rfl fun t' => signals_taken ..)
        by_contra hnot
        have h : (Function.update s.pos t (.inExec r) t').Closes := h
        rcases eq_or_ne t' t with rfl | hne
        · rw [Function.update_self] at h
          exact h
        · rw [Function.update_of_ne hne] at h
          exact hnot h

theorem ReqInv.waiDev (inv : ReqInv s) {rid : ℕ} {brk : ER}
    (legal : (ReqOp.waiDev t rid reqid brk).Legal s)
    (hop : (ReqOp.waiDev t rid reqid brk).Keeps s) : ReqInv (s.waiDev t rid reqid brk).2 := by
  obtain ⟨ht, htpos⟩ := legal
  have hclose : ∀ {p : ReqPos}, ¬p.Closes → ∀ t', (Function.update s.pos t p t').Closes →
      (s.pos t').Closes := by
    intro p hp t' h
    rcases eq_or_ne t' t with rfl | hne
    · rw [Function.update_self] at h
      exact absurd h hp
    · rwa [Function.update_of_ne hne] at h
  unfold OpnReqs.waiDev
  by_cases hbrk : brk < E_OK
  · rw [if_pos hbrk]
    exact inv
  rw [if_neg hbrk]
  by_cases hchk : s.checkDevdesc rid 0 < E_OK
  · rw [if_pos hchk]
    exact inv
  rw [if_neg hchk]
  have hres := resid_of_checkDevdesc hchk
  by_cases h0 : reqid = 0
  · rw [if_pos h0]
    by_cases hobj : s.nwaireq > 0 ∨ s.waitone ≠ 0
    · rw [if_pos hobj]
      exact inv
    rw [if_neg hobj]
    by_cases hempty : s.requestq = []
    · rw [if_pos hempty]
      exact inv
    rw [if_neg hempty]
    obtain ⟨hnwai, hone⟩ := not_or.mp hobj
    have hmarks :=
      hop (not_lt.mp hbrk) (not_lt.mp hchk) h0 (Nat.eq_zero_of_not_pos hnwai) (not_not.mp hone)
    -- whoever is in the driver has marked a request
    have hidle : ∀ t', ¬(s.pos t').InCall := by
      intro t' hc
      obtain ⟨r, hu⟩ := inv.calls.exists_uses hc
      obtain ⟨hr, hm⟩ := inv.calls.uses hc hu
      exact (inv.calls.task t' hc).ne ((hmarks r hr).symm.trans hm)
    exact ⟨inv.calls.waitAny htpos hidle hempty rfl rfl (fun r hr => if_pos hr) rfl rfl
      (blockLog_same inv.calls.blocks rfl fun _ => ⟨rfl, rfl⟩),
      inv.close.still hres (hclose id) rfl rfl (signalLog_same inv.close.signals rfl fun _ =>
        ⟨rfl, rfl⟩)⟩
  · rw [if_neg h0]
    by_cases hid : reqid ∉ s.requestq
    · rw [if_pos hid]
      exact inv
    rw [if_neg hid]
    by_cases hobj : s.nwaireq > 0 ∨ s.tskid reqid > 0
    · rw [if_pos hobj]
      exact inv
    rw [if_neg hobj]
    obtain ⟨hnwai, hmark⟩ := not_or.mp hobj
    exact ⟨inv.calls.waitOne htpos ht (not_not.mp hid) (Nat.eq_zero_of_not_pos hmark)
      (Nat.eq_zero_of_not_pos hnwai)
      rfl rfl rfl rfl rfl (blockLog_same inv.calls.blocks rfl fun _ => ⟨rfl, rfl⟩),
      inv.close.still hres (hclose id) rfl rfl (signalLog_same inv.close.signals rfl fun _ =>
        ⟨rfl, rfl⟩)⟩

/-! ### Returns from the driver -/

theorem notifyAbort_with (s : OpnReqs) (f : ℕ → Tsk) (w : BitVec 16) (n : ℕ) :
    { s with tskid := f, waitone := w, nwaireq := n }.notifyAbort =
      { s.notifyAbort with tskid := f, waitone := w, nwaireq := n } := by
  unfold OpnReqs.notifyAbort
  dsimp only
  split_ifs <;> rfl

/-- A notification changes the count, and the closing task. -/
structure Notified (s s' : OpnReqs) : Prop where
  resid : s'.resid = s.resid
  requestq : s'.requestq = s.requestq
  next : s'.next = s.next
  abort_tskid : s'.abort_tskid = s.abort_tskid
  pos : ∀ t p, p.InCall → (s'.pos t = p ↔ s.pos t = p)
  log : ∀ r, s'.log.count (.taken r) = s.log.count (.taken r) ∧
    s'.log.count (.freed r) = s.log.count (.freed r)

theorem notified (s : OpnReqs) : Notified s s.notifyAbort := by
  have hrefl : Notified s s := ⟨rfl, rfl, rfl, rfl, fun _ _ _ => Iff.rfl, fun _ => ⟨rfl, rfl⟩⟩
  by_cases h0 : s.abort_tskid = 0
  · rw [notifyAbort_none h0]
    exact hrefl
  by_cases hcnt : s.abort_cnt = 1
  · rw [notifyAbort_last h0 hcnt]
    refine ⟨rfl, rfl, rfl, rfl, fun t p hp => ?_, fun r => ?_⟩
    · by_cases hsync : s.pos s.abort_tskid = .inSync
      · have hcall : ¬(s.pos s.abort_tskid).InCall := by
          rw [hsync]
          exact id
        have e : ({ s with abort_cnt := 0 }.syncSignal s.abort_tskid).pos =
            Function.update s.pos s.abort_tskid .synced :=
          if_pos hsync
        rw [e]
        exact update_call_iff hcall id t p hp
      · have e : ({ s with abort_cnt := 0 }.syncSignal s.abort_tskid).pos = s.pos := if_neg hsync
        rw [e]
    · show (s.log ++ [ReqEvent.signalled s.abort_tskid]).count (ReqEvent.taken r) = _ ∧
        (s.log ++ [ReqEvent.signalled s.abort_tskid]).count (ReqEvent.freed r) = _
      rw [count_concat, count_concat, if_neg (show ReqEvent.signalled _ ≠
        .taken r from ReqEvent.noConfusion), if_neg (show ReqEvent.signalled _ ≠
        .freed r from ReqEvent.noConfusion)]
      exact ⟨rfl, rfl⟩
  · rw [notifyAbort_more h0 hcnt]
    exact ⟨rfl, rfl, rfl, rfl, fun _ _ _ => Iff.rfl, fun _ => ⟨rfl, rfl⟩⟩

/-- A call returns, its marks go, and a request may be freed. -/
theorem ReqInv.ret (inv : ReqInv s) (hcall : (s.pos t).InCall)
    (hmine : ∀ r, r ∈ l ↔ (s.pos t).Uses r) {n : ℕ} {w : BitVec 16}
    (hop : s.abort_tskid ≠ 0 → s.abort_cnt = 1 → s.pos s.abort_tskid ≠ .aborted)
    (hany : ∀ l, s.pos t = .inWait 0 l → n = 0)
    (hnwai : (∀ l, s.pos t ≠ .inWait 0 l) → n = s.nwaireq) :
    let s₁ : OpnReqs := { s.notifyAbort with
      tskid := fun r => if r ∈ l then 0 else s.tskid r
      waitone := w
      nwaireq := n }
    ReqInv (s₁.goTo t .outside) ∧ ∀ r ∈ l, ReqInv ((s₁.goTo t .outside).delReqCB r) := by
  intro s₁
  have hn := notified s
  have hpos : ∀ t', t' ≠ t → ∀ p, p.InCall → ((s₁.goTo t .outside).pos t' = p ↔ s.pos t' = p) := by
    intro t' hne p hp
    show Function.update s.notifyAbort.pos t .outside t' = p ↔ _
    rw [Function.update_of_ne hne]
    exact hn.pos t' p hp
  have hself : ¬((s₁.goTo t .outside).pos t).InCall := by
    show ¬(Function.update s.notifyAbort.pos t .outside t).InCall
    rw [Function.update_self]
    exact id
  have hcalls : CallInv (s₁.goTo t .outside) :=
    inv.calls.ret hmine hcall hself hpos hn.requestq rfl hn.next hany hnwai
      (blockLog_same inv.calls.blocks hn.requestq hn.log)
  refine ⟨⟨hcalls, inv.close.ret hcall hop ⟨rfl, hn.resid, hn.abort_tskid, rfl, rfl, fun _ =>
    ⟨rfl, rfl⟩⟩⟩, fun r hr => ?_⟩
  refine ⟨hcalls.del ?_ fun t' hc hu => ?_, inv.close.ret hcall hop ⟨rfl, hn.resid,
    hn.abort_tskid, rfl, rfl, fun t' => signals_freed s.notifyAbort.log r t'⟩⟩
  · show r ∈ s.notifyAbort.requestq
    rw [hn.requestq]
    exact (inv.calls.uses hcall ((hmine r).mp hr)).1
  · -- its mark is gone
    have hm : (if r ∈ l then 0 else s.tskid r) = t' := (hcalls.uses hc hu).2
    rw [if_pos hr] at hm
    exact (hcalls.task t' hc).ne hm

theorem ReqInv.execReturns (inv : ReqInv s) (ht : s.pos t = .inExec r)
    (hop : (ReqOp.execReturns t r ercd).Keeps s) : ReqInv (s.execReturns t r ercd) := by
  have hcall : (s.pos t).InCall := by
    rw [ht]
    exact trivial
  have hmine : ∀ r', r' ∈ [r] ↔ (s.pos t).Uses r' := by
    intro r'
    rw [ht, List.mem_singleton]
    exact eq_comm
  have hnot : ∀ l, s.pos t ≠ .inWait 0 l := by
    intro l
    rw [ht]
    exact ReqPos.noConfusion
  have e : Function.update s.tskid r 0 = fun r' => if r' ∈ [r] then 0 else s.tskid r' := by
    funext r'
    rw [Function.update_apply]
    exact if_congr List.mem_singleton.symm rfl rfl
  obtain ⟨hstay, hdel⟩ :=
    inv.ret (n := s.nwaireq) (w := s.waitone) hcall hmine hop (fun l h => absurd h (hnot l))
    fun _ => rfl
  unfold OpnReqs.execReturns
  dsimp only
  have hn := notifyAbort_with s (Function.update s.tskid r 0) s.waitone s.nwaireq
  have hn : { s with tskid := Function.update s.tskid r 0 }.notifyAbort = _ := hn
  rw [hn, e]
  by_cases hercd : ercd < E_OK
  · rw [if_pos hercd]
    exact hdel r (List.mem_singleton_self r)
  · rw [if_neg hercd]
    exact hstay

theorem ReqInv.waitReturns (inv : ReqInv s) {reqno : ℤ} (ht : s.pos t = .inWait reqid l)
    (hop : (ReqOp.waitReturns t reqid l reqno).Keeps s) :
    ReqInv (s.waitReturns t reqid l reqno) := by
  have hcall : (s.pos t).InCall := by
    rw [ht]
    exact trivial
  have hmine : ∀ r', r' ∈ l ↔ (s.pos t).Uses r' := by
    intro r'
    rw [ht]
    exact Iff.rfl
  have hlist := (inv.calls.wait t reqid l ht).linked
  -- what is left of the wait in the counters
  obtain ⟨n, w, hs, hany, hnwai⟩ : ∃ n w,
      (if reqid = 0 then { s with nwaireq := 0 } else { s with waitone := s.waitone - 1 }) =
        { s with waitone := w, nwaireq := n } ∧
      (∀ l, s.pos t = .inWait 0 l → n = 0) ∧ ((∀ l, s.pos t ≠ .inWait 0 l) → n = s.nwaireq) := by
    by_cases h0 : reqid = 0
    · rw [if_pos h0]
      subst h0
      exact ⟨0, s.waitone, rfl, fun _ _ => rfl, fun h => absurd ht (h l)⟩
    · rw [if_neg h0]
      refine ⟨s.nwaireq, s.waitone - 1, rfl, fun l' h => ?_, fun _ => rfl⟩
      exact absurd (ReqPos.inWait.inj (ht.symm.trans h)).1 h0
  obtain ⟨hstay, hdel⟩ := inv.ret (w := w) hcall hmine hop hany hnwai
  unfold OpnReqs.waitReturns
  dsimp only
  have hn : { s with waitone := w, nwaireq := n }.notifyAbort = _ := notifyAbort_with s s.tskid w n
  rw [hs, hn, hlist]
  by_cases hbig : reqno ≥ l.length
  · rw [if_pos hbig, if_pos (by decide)]
    exact hstay
  rw [if_neg hbig]
  by_cases hneg : reqno < E_OK
  · rw [if_pos hneg, if_pos hneg]
    exact hstay
  · rw [if_neg hneg, if_neg (lt_irrefl E_OK)]
    have hlt : reqno.toNat < l.length := by
      have h0 : E_OK ≤ reqno := not_lt.mp hneg
      have h0 : 0 ≤ reqno := h0
      omega
    apply hdel
    rw [List.getD_eq_getElem l reqid hlt]
    exact List.getElem_mem hlt

/-! ### Closing -/

/-- A step of the closing task does not concern the driver calls. -/
theorem CallInv.goTo (inv : CallInv s) (ht : ¬(s.pos t).InCall) (hp : ¬p.InCall)
    (hpos : s'.pos = Function.update s.pos t p) (hreq : s'.requestq = s.requestq)
    (htskid : s'.tskid = s.tskid) (hnext : s'.next = s.next) (hnwai : s'.nwaireq = s.nwaireq)
    (hlog : ∀ r, s'.log.count (.taken r) = s.log.count (.taken r) ∧
      s'.log.count (.freed r) = s.log.count (.freed r)) :
    CallInv s' := by
  refine inv.frame (fun t' q hq => ?_) hreq htskid (fun r _ => congrFun hnext r) hnwai
    (blockLog_same inv.blocks hreq hlog)
  rw [hpos]
  exact update_call_iff ht hp t' q hq

theorem CloseInv.alone (inv : CloseInv s) (ht : (s.pos t).Closes) (t' : Tsk) (hne : t' ≠ t) :
    ¬(s.pos t').Closes :=
  fun h => hne (inv.only t' t h ht)

theorem ReqInv.begin (inv : ReqInv s) (ht : s.pos t = .outside) (htpos : 0 < t)
    (hnone : ∀ t, ¬(s.pos t).Closes) :
    ReqInv (s.devmgrCleanup t) := by
  have hcall : ¬(s.pos t).InCall := by
    rw [ht]
    exact id
  have h0 : s.abort_tskid = 0 := by
    by_contra h
    exact hnone _ (closes_of_aborts (inv.close.aborts h))
  constructor
  · exact inv.calls.goTo hcall id rfl rfl rfl rfl rfl fun _ => ⟨rfl, rfl⟩
  · refine inv.close.goOn (fun t' _ => hnone t') htpos rfl rfl (fun h => absurd h0 h)
      (fun _ _ => rfl) ?_
      (signalLog_same inv.close.signals rfl fun _ => ⟨rfl, rfl⟩)
    have hmask : s.mask t = false := (closeAt_of_not_closes (hnone t)).mp (inv.close.place t)
    exact ⟨h0, hmask⟩

theorem ReqInv.clsDev (inv : ReqInv s) {rid : ℕ} (ht : s.pos t = .outside) (htpos : 0 < t) :
    ReqInv (s.clsDev t rid).2 := by
  unfold OpnReqs.clsDev
  by_cases hchk : s.checkDevdesc rid 0 < E_OK
  · rw [if_pos hchk]
    exact inv
  · rw [if_neg hchk]
    exact inv.begin ht htpos fun t' h => resid_of_checkDevdesc hchk (inv.close.resid t' h)

theorem ReqInv.goOn (inv : ReqInv s) (hc : (s.pos t).Closes) (hp : p.Closes)
    (hpos : s'.pos = Function.update s.pos t p) (hreq : s'.requestq = s.requestq)
    (htskid : s'.tskid = s.tskid) (hnext : s'.next = s.next) (hnwai : s'.nwaireq = s.nwaireq)
    (hres : s'.resid = s.resid) (habort : s'.abort_tskid ≠ 0 → s'.abort_tskid = t ∧ p.Aborts)
    (hmask : s'.mask = s.mask) (hlog : s'.log = s.log)
    (hat : CloseAt s t (s.pos t) → CloseAt s' t p) : ReqInv s' := by
  constructor
  · exact inv.calls.goTo (not_inCall_of_closes hc) (not_inCall_of_closes hp) hpos hreq htskid
      hnext hnwai
      fun _ => hlog ▸ ⟨rfl, rfl⟩
  · exact inv.close.goOn (inv.close.alone hc) (inv.close.task t hc) hpos
      (hres.trans (inv.close.resid t hc)) habort
      (fun t' _ => congrFun hmask t') (hat (inv.close.place t))
      (signalLog_same inv.close.signals hmask fun _ => hlog ▸ ⟨rfl, rfl⟩)

theorem counted_goTo (h : s.Counted) (hc : (s.pos t).Closes) (hp : p.Closes) :
    (s.goTo t p).Counted := by
  obtain ⟨n, hn, hcount⟩ := h
  exact ⟨n, hn, counted_update hcount hc hp⟩

/-- The abort: `abort_cnt` becomes the number of tasks in the driver. -/
theorem ReqInv.abortAllrequest (inv : ReqInv s) (ht : s.pos t = .closing)
    (hop : (ReqOp.abortAllrequest t).Keeps s) : ReqInv (s.abortAllrequest t) := by
  have hc : (s.pos t).Closes := by
    rw [ht]
    exact trivial
  have hat := inv.close.place t
  rw [ht] at hat
  unfold OpnReqs.abortAllrequest
  by_cases hany : s.nwaireq > 0
  · simp only [if_pos hany]
    refine inv.goOn hc (p := .aborted) trivial rfl rfl rfl rfl rfl rfl (fun _ =>
      ⟨rfl, trivial⟩) rfl rfl
      fun _ => ⟨rfl, ?_, hat.2⟩
    exact ⟨1, rfl, counted_update (inv.calls.counts_any hany (hop hany)) hc trivial⟩
  · simp only [if_neg hany]
    refine inv.goOn hc (p := .aborted) trivial rfl rfl rfl rfl rfl rfl (fun _ =>
      ⟨rfl, trivial⟩) rfl rfl
      fun _ => ⟨rfl, ?_, hat.2⟩
    exact ⟨_, rfl, counted_update (inv.calls.counts (Nat.eq_zero_of_not_pos hany)) hc trivial⟩

theorem ReqInv.checkAbort (inv : ReqInv s) (ht : s.pos t = .aborted) : ReqInv (s.checkAbort t) := by
  have hc : (s.pos t).Closes := by
    rw [ht]
    exact trivial
  have hat := inv.close.place t
  rw [ht] at hat
  obtain ⟨habort, hcounted, hmask⟩ := hat
  have hnonneg : 0 ≤ s.abort_cnt := by
    obtain ⟨n, hn, -⟩ := hcounted
    omega
  unfold OpnReqs.checkAbort
  by_cases hcnt : s.abort_cnt > 0
  · rw [if_pos hcnt]
    refine inv.goOn hc (p := .toSync) trivial rfl rfl rfl rfl rfl rfl (fun _ => ⟨habort, trivial⟩)
      rfl rfl fun _ => ?_
    refine ⟨habort, counted_goTo hcounted hc trivial, iff_of_false ?_ hcnt.ne'⟩
    rw [show (s.goTo t .toSync).mask t = false from hmask]
    exact Bool.false_ne_true
  · rw [if_neg hcnt]
    refine inv.goOn hc (p := .ended) trivial rfl rfl rfl rfl rfl rfl (fun _ => ⟨habort, trivial⟩)
      rfl rfl fun _ => ?_
    exact ⟨habort, counted_goTo hcounted hc trivial, hmask, le_antisymm (not_lt.mp hcnt) hnonneg⟩

theorem ReqInv.waiSync (inv : ReqInv s) (ht : s.pos t = .toSync) : ReqInv (s.waiSync t) := by
  have hc : (s.pos t).Closes := by
    rw [ht]
    exact trivial
  have hat := inv.close.place t
  rw [ht] at hat
  obtain ⟨habort, hcounted, hmask⟩ := hat
  have hnonneg : 0 ≤ s.abort_cnt := by
    obtain ⟨n, hn, -⟩ := hcounted
    omega
  unfold OpnReqs.waiSync
  by_cases hm : s.mask t
  · rw [if_pos hm]
    refine inv.goOn hc (p := .synced) trivial rfl rfl rfl rfl rfl rfl (fun _ => ⟨habort, trivial⟩)
      rfl rfl fun _ => ?_
    exact ⟨habort, counted_goTo hcounted hc trivial, hm, hmask.mp hm⟩
  · rw [if_neg hm]
    refine inv.goOn hc (p := .inSync) trivial rfl rfl rfl rfl rfl rfl (fun _ => ⟨habort, trivial⟩)
      rfl rfl fun _ => ?_
    exact ⟨habort, counted_goTo hcounted hc trivial, Bool.eq_false_of_not_eq_true hm,
      lt_of_le_of_ne hnonneg fun h => hm (hmask.mpr h.symm)⟩

theorem ReqInv.enaWai (inv : ReqInv s) (ht : s.pos t = .synced) : ReqInv (s.enaWai t) := by
  have hc : (s.pos t).Closes := by
    rw [ht]
    exact trivial
  have hat := inv.close.place t
  rw [ht] at hat
  obtain ⟨habort, hcounted, hmask, hcnt⟩ := hat
  have hmask' : ∀ t', t' ≠ t → (s.enaWai t).mask t' = s.mask t' :=
    fun t' hne => Function.update_of_ne hne ..
  have hmself : (s.enaWai t).mask t = false := Function.update_self ..
  have hpos : (s.enaWai t).pos = Function.update s.pos t .ended := rfl
  constructor
  · refine inv.calls.goTo (not_inCall_of_closes hc) id hpos rfl rfl rfl rfl fun r => ?_
    show (s.log ++ [ReqEvent.received t]).count (ReqEvent.taken r) = _ ∧
      (s.log ++ [ReqEvent.received t]).count (ReqEvent.freed r) = _
    rw [count_concat, count_concat, if_neg (show ReqEvent.received t ≠
      .taken r from ReqEvent.noConfusion), if_neg (show ReqEvent.received t ≠
      .freed r from ReqEvent.noConfusion)]
    exact ⟨rfl, rfl⟩
  · refine inv.close.goOn (inv.close.alone hc) (inv.close.task t hc) hpos
      (inv.close.resid t hc) (fun _ => ⟨habort, trivial⟩) hmask'
      ⟨habort, counted_goTo (s := s) hcounted hc trivial, hmself, hcnt⟩ fun t' => ?_
    have h := inv.close.signals t'
    show (s.log ++ [ReqEvent.received t]).count (ReqEvent.signalled t') =
      (s.log ++ [ReqEvent.received t]).count (ReqEvent.received t') + if (s.enaWai t).mask t' then
      1 else 0
    rw [count_concat, count_concat, h, if_neg (show ReqEvent.received t ≠ .signalled t' from
      ReqEvent.noConfusion)]
    rcases eq_or_ne t t' with rfl | hne
    · rw [hmask, hmself, if_pos rfl, if_pos rfl, if_neg Bool.false_ne_true]
    · rw [hmask' t' hne.symm, if_neg fun h => hne (ReqEvent.received.inj h), Nat.add_zero,
        Nat.add_zero]

theorem ReqInv.resetAbort (inv : ReqInv s) (ht : s.pos t = .ended) : ReqInv (s.resetAbort t) := by
  have hc : (s.pos t).Closes := by
    rw [ht]
    exact trivial
  have hat := inv.close.place t
  rw [ht] at hat
  obtain ⟨-, ⟨n, hn, hcount⟩, hmask, hcnt⟩ := hat
  obtain rfl : n = 0 := by omega
  have hpos : (s.resetAbort t).pos = Function.update s.pos t .draining := rfl
  refine inv.goOn hc (p := .draining) trivial hpos rfl rfl rfl rfl rfl (fun h =>
    absurd rfl h) rfl rfl
    fun _ => ⟨rfl, fun t' h => ?_, hmask⟩
  exact (counted_update hcount hc (p := .draining) trivial).none t' h

theorem quiet_goTo (h : s.Quiet t) (hp : ¬p.InCall) : (s.goTo t p).Quiet t := by
  refine ⟨h.1, fun t' hc => ?_, h.2.2⟩
  have hc : (Function.update s.pos t p t').InCall := hc
  rcases eq_or_ne t' t with rfl | hne
  · rw [Function.update_self] at hc
    exact hp hc
  · rw [Function.update_of_ne hne] at hc
    exact h.2.1 t' hc

theorem ReqInv.drain (inv : ReqInv s) (ht : s.pos t = .draining) : ReqInv (s.drain t) := by
  have hc : (s.pos t).Closes := by
    rw [ht]
    exact trivial
  have hat : s.Quiet t := by
    have h := inv.close.place t
    rwa [ht] at h
  unfold OpnReqs.drain
  split
  case h_1 hempty =>
    exact inv.goOn hc (p := .closed) trivial rfl rfl rfl rfl rfl rfl (fun h =>
      absurd hat.1 h) rfl rfl
      fun _ => ⟨quiet_goTo hat id, hempty⟩
  case h_2 r rest hcons =>
    have hr : r ∈ s.requestq := by
      rw [hcons]
      exact List.mem_cons_self
    exact inv.goOn hc (p := .inDrain r) trivial rfl rfl rfl rfl rfl rfl (fun h =>
      absurd hat.1 h) rfl rfl
      fun _ => ⟨quiet_goTo hat id, hr⟩

theorem ReqInv.drainReturns (inv : ReqInv s) (ht : s.pos t = .inDrain r) :
    ReqInv (s.drainReturns t r) := by
  have hc : (s.pos t).Closes := by
    rw [ht]
    exact trivial
  obtain ⟨hquiet, hr⟩ : s.Quiet t ∧ r ∈ s.requestq := by
    have h := inv.close.place t
    rwa [ht] at h
  constructor
  · exact (inv.calls.del hr fun t' h => absurd h (hquiet.2.1 t')).goTo (not_inCall_of_closes hc) id
      rfl rfl rfl rfl rfl
      fun _ => ⟨rfl, rfl⟩
  · have hpos : (s.drainReturns t r).pos = Function.update s.pos t .draining := rfl
    exact inv.close.goOn (inv.close.alone hc) (inv.close.task t hc) hpos
      (inv.close.resid t hc) (fun h => absurd hquiet.1 h) (fun _ _ => rfl) (quiet_goTo hquiet id)
      (signalLog_same inv.close.signals rfl fun t' => signals_freed s.log r t')

/-! ## Runs -/

theorem ReqInv.exec (inv : ReqInv s) {op : ReqOp} (legal : op.Legal s) (hop : op.Keeps s) :
    ReqInv (op.exec s) := by
  cases op with
  | request t rid start cmd brk new tsp => exact inv.request legal
  | execReturns t reqid ercd => exact inv.execReturns legal hop
  | waiDev t rid reqid brk => exact inv.waiDev legal hop
  | waitReturns t reqid devreqs reqno => exact inv.waitReturns legal hop
  | clsDev t rid => exact inv.clsDev legal.1 legal.2
  | devmgrCleanup t => exact inv.begin legal.1 legal.2 hop
  | abortAllrequest t => exact inv.abortAllrequest legal hop
  | checkAbort t => exact inv.checkAbort legal
  | waiSync t => exact inv.waiSync legal
  | enaWai t => exact inv.enaWai legal
  | resetAbort t => exact inv.resetAbort legal
  | drain t => exact inv.drain legal
  | drainReturns t reqid => exact inv.drainReturns legal

theorem OpnReqs.Opened.inv (h : s.Opened) : ReqInv s := by
  have hpos : ∀ {t p}, s.pos t = p → p = .outside := fun {t _} hp => hp.symm.trans (h.pos t)
  have hclose : ∀ t, ¬(s.pos t).Closes := fun t => by
    rw [h.pos t]
    exact id
  have hreq : ∀ r, r ∉ s.requestq := fun r => by
    rw [h.requestq]
    exact List.not_mem_nil
  constructor
  · refine ⟨?_, fun r hr => absurd hr (hreq r), fun t r hp => absurd (hpos hp) ReqPos.noConfusion,
      fun t _ _ hp => absurd (hpos hp) ReqPos.noConfusion, fun r hr => absurd hr (hreq r),
      fun t hc => ?_, fun t _ hp => absurd (hpos hp) ReqPos.noConfusion, fun hn =>
        absurd h.nwaireq hn.ne',
      fun r => ?_⟩
    · rw [h.requestq]
      exact List.nodup_nil
    · rw [h.pos t] at hc
      exact hc.elim
    · rw [h.log, if_neg (hreq r)]
      rfl
  · refine ⟨fun t hc => absurd hc (hclose t), fun t hc => absurd hc (hclose t), fun t _ hc =>
      absurd hc (hclose t), fun hne => absurd h.abort_tskid hne, fun t => ?_, fun t => ?_⟩
    · rw [h.pos t]
      exact h.mask t
    · rw [h.log, h.mask t]
      rfl

variable {s₀ : OpnReqs}

theorem ReqRun.inv (run : ReqRun ReqOp.Keeps s₀ s) : ReqInv s := by
  induction run with
  | start h => exact h.inv
  | step op _ legal h ih => exact ih.exec legal h

theorem ReqInv.right (inv : ReqInv s) : ReqRight s := by
  have hat := inv.close.place
  have hcount : ∀ {t}, (s.pos t).Aborts → s.Counted := by
    intro t h
    have ht := hat t
    cases hp : s.pos t with
    | aborted | toSync | inSync | synced | ended =>
      rw [hp] at ht
      exact ht.2.1
    | _ =>
      rw [hp] at h
      exact h.elim
  refine ⟨inv.calls.blocks, fun t r hu => ?_, fun t ht => ?_, fun h => hcount (inv.close.aborts h),
    fun t hcont => ?_, fun t ht => ?_, inv.close.signals, fun t hcont => ?_⟩
  · cases hp : s.pos t with
    | inExec r' => exact (inv.calls.uses (t := t) (by rw [hp]; exact trivial) hu).1
    | inWait reqid l => exact (inv.calls.uses (t := t) (by rw [hp]; exact trivial) hu).1
    | inDrain r' =>
      have ht := hat t
      rw [hp] at ht hu
      obtain rfl : r' = r := hu
      exact ht.2
    | _ =>
      rw [hp] at hu
      exact hu.elim
  · have h := hat t
    rw [ht] at h
    exact h.2
  · have ht := hat t
    cases hp : s.pos t with
    | ended =>
      rw [hp] at ht
      obtain ⟨-, ⟨n, hn, hcount⟩, -, hcnt⟩ := ht
      obtain rfl : n = 0 := by omega
      exact hcount.none
    | draining =>
      rw [hp] at ht
      exact ht.2.1
    | inDrain r =>
      rw [hp] at ht
      exact ht.1.2.1
    | closed =>
      rw [hp] at ht
      exact ht.1.2.1
    | _ =>
      rw [hp] at hcont
      exact hcont.elim
  · have h := hat t
    rw [ht] at h
    exact ⟨h.1, h.2.2.2⟩
  · have ht := hat t
    cases hp : s.pos t with
    | ended =>
      rw [hp] at ht
      exact ht.2.2.1
    | draining =>
      rw [hp] at ht
      exact ht.2.2
    | inDrain r =>
      rw [hp] at ht
      exact ht.1.2.2
    | closed =>
      rw [hp] at ht
      exact ht.1.2.2
    | _ =>
      rw [hp] at hcont
      exact hcont.elim

/-- A descriptor for reading. -/
def newOpen : OpnReqs :=
  ⟨TD_READ, 1, [], 0, none, 0, 0, 0, fun _ => 0, fun _ => none, fun _ => false,
    fun _ => false, fun _ => .outside, []⟩

theorem newOpen_opened : newOpen.Opened :=
  ⟨by decide, rfl, rfl, rfl, rfl, fun _ => rfl, fun _ => rfl, rfl⟩

/-- The first task is in `execfn`. -/
def started : OpnReqs := (newOpen.request 1 1 0 TDC_READ E_OK (some 1) E_OK).2

theorem started_run {P : OpnReqs → ReqOp → Prop}
    (h : P newOpen (.request 1 1 0 TDC_READ E_OK (some 1) E_OK)) :
    ReqRun P newOpen started := by
  have hnew : (ReqOp.request 1 1 0 TDC_READ E_OK (some 1) E_OK).Legal newOpen := by
    refine ⟨rfl, by decide, ?_⟩
    rintro r ⟨⟩
    decide
  exact (ReqRun.start newOpen_opened).step _ hnew h

/-- The second task closes the descriptor, and waits for the first one. -/
def awaited : OpnReqs := (((started.clsDev 2 1).2.abortAllrequest 2).checkAbort 2).waiSync 2

end SmpTKernel
