import SmpTKernel.Semaphore

/-!
# Counts and waits

Every count that was there at first or was signalled is still there or was granted, and the tasks in
the queue are those whose requests cannot be met: each loop hands out counts until this is so.
-/

namespace SmpTKernel

/-! ## Sums over a history -/

def SemEvent.signals : SemEvent → ℤ
  | signalled cnt => cnt
  | granted _ _ | waitEnds _ _ => 0

def SemEvent.grants : SemEvent → ℤ
  | granted _ cnt => cnt
  | signalled _ | waitEnds _ _ => 0

def signalledSum (log : List SemEvent) : ℤ := (log.map SemEvent.signals).sum

def grantedSum (log : List SemEvent) : ℤ := (log.map SemEvent.grants).sum

variable {s s' : Semcb} {log evs evs' : List SemEvent} {ev : SemEvent} {t u self : Tsk}
  {l : List Tsk} {isemcnt : ℤ}

@[simp] theorem signalledSum_nil : signalledSum [] = 0 := rfl

@[simp] theorem grantedSum_nil : grantedSum [] = 0 := rfl

@[simp] theorem signalledSum_cons : signalledSum (ev :: log) = ev.signals + signalledSum log := by
  simp [signalledSum]

@[simp] theorem grantedSum_cons : grantedSum (ev :: log) = ev.grants + grantedSum log := by
  simp [grantedSum]

@[simp] theorem signalledSum_append :
    signalledSum (log ++ evs) = signalledSum log + signalledSum evs := by
  simp [signalledSum]

@[simp] theorem grantedSum_append : grantedSum (log ++ evs) = grantedSum log + grantedSum evs := by
  simp [grantedSum]

/-! ## Requests that cannot be met -/

/-- The head requests too many counts, or with `TA_CNT` every task in the queue. -/
def Semcb.Starved (s : Semcb) : Prop :=
  (s.sematr &&& TA_CNT = 0 → ∀ t ∈ s.wait_queue.head?, s.semcnt < s.cnt t) ∧
    (s.sematr &&& TA_CNT ≠ 0 → ∀ t ∈ s.wait_queue, s.semcnt < s.cnt t)

/-- Counts have been handed out, to tasks among `l`. -/
structure Hands (l : List Tsk) (s s' : Semcb) (evs : List SemEvent) : Prop where
  queue : s'.wait_queue.Sublist l
  cnt : s'.cnt = s.cnt
  atr : s'.sematr = s.sematr
  maxsem : s'.maxsem = s.maxsem
  nonneg : 0 ≤ s'.semcnt
  sum : s'.semcnt + grantedSum evs = s.semcnt
  grants : ∀ ev ∈ evs, ∃ t ∈ l, ev = .granted t (s.cnt t)

theorem Hands.none (h : 0 ≤ s.semcnt) : Hands l s { s with wait_queue := l } [] where
  queue := List.Sublist.refl l
  cnt := rfl
  atr := rfl
  maxsem := rfl
  nonneg := h
  sum := add_zero _
  grants _ hev := absurd hev List.not_mem_nil

/-- One task gets its counts, and then others get theirs. -/
theorem Hands.cons (h : Hands l (s.grant t) s' evs) :
    Hands (t :: l) s s' (.granted t (s.cnt t) :: evs) where
  queue := h.queue.cons t
  cnt := h.cnt
  atr := h.atr
  maxsem := h.maxsem
  nonneg := h.nonneg
  sum := by
    have hsum := h.sum
    change s'.semcnt + grantedSum evs = s.semcnt - s.cnt t at hsum
    rw [grantedSum_cons]
    show s'.semcnt + (s.cnt t + grantedSum evs) = _
    omega
  grants ev hev := by
    rcases List.mem_cons.mp hev with rfl | hev
    · exact ⟨t, List.mem_cons_self, rfl⟩
    · obtain ⟨u, hu, rfl⟩ := h.grants ev hev
      exact ⟨u, List.mem_cons_of_mem t hu, rfl⟩

theorem Hands.skip (h : Hands l s s' evs) :
    Hands (t :: l) s { s' with wait_queue := t :: s'.wait_queue } evs where
  queue := h.queue.cons_cons t
  cnt := h.cnt
  atr := h.atr
  maxsem := h.maxsem
  nonneg := h.nonneg
  sum := h.sum
  grants ev hev := by
    obtain ⟨u, hu, rfl⟩ := h.grants ev hev
    exact ⟨u, List.mem_cons_of_mem t hu, rfl⟩

theorem wakeupLoop_hands (h : 0 ≤ s.semcnt) :
    Hands l s (s.wakeupLoop l).1 (s.wakeupLoop l).2 ∧
      ∀ t ∈ (s.wakeupLoop l).1.wait_queue.head?, (s.wakeupLoop l).1.semcnt < s.cnt t := by
  induction l generalizing s with
  | nil => exact ⟨Hands.none h, fun t ht => absurd ht (Option.not_mem_none t)⟩
  | cons top queue ih =>
    unfold Semcb.wakeupLoop
    by_cases hlt : s.semcnt < s.cnt top
    · rw [if_pos hlt]
      refine ⟨Hands.none h, fun t ht => ?_⟩
      rw [← Option.mem_some_iff.mp ht]
      exact hlt
    · rw [if_neg hlt]
      obtain ⟨hands, hhead⟩ := ih (s := s.grant top) (Int.sub_nonneg_of_le (Int.not_lt.mp hlt))
      exact ⟨hands.cons, hhead⟩

/-- The loop of a signal leaves only requests that cannot be met. -/
theorem sigLoop_hands (h : 0 ≤ s.semcnt) (hpos : ∀ t ∈ l, 0 < s.cnt t) :
    Hands l s (s.sigLoop l).1 (s.sigLoop l).2 ∧ (s.sigLoop l).1.Starved := by
  induction l generalizing s with
  | nil =>
    exact ⟨Hands.none h, fun _ t ht => absurd ht (Option.not_mem_none t), fun _ t ht =>
      absurd ht List.not_mem_nil⟩
  | cons tcb queue ih =>
    have hposq : ∀ t ∈ queue, 0 < s.cnt t := fun t ht => hpos t (List.mem_cons_of_mem tcb ht)
    unfold Semcb.sigLoop
    by_cases hlt : s.semcnt < s.cnt tcb
    · rw [if_pos hlt]
      by_cases hatr : s.sematr &&& TA_CNT = 0
      · rw [if_pos hatr]
        refine ⟨Hands.none h, fun _ t ht => ?_, fun hc => absurd hatr hc⟩
        rw [← Option.mem_some_iff.mp ht]
        exact hlt
      · rw [if_neg hatr]
        obtain ⟨hands, -, hall⟩ := ih h hposq
        refine ⟨hands.skip, fun hc => absurd (hands.atr ▸ hc) hatr, fun _ t ht => ?_⟩
        have hle : (s.sigLoop queue).1.semcnt ≤ s.semcnt := by
          have hsum := hands.sum
          have hgrants : 0 ≤ grantedSum (s.sigLoop queue).2 := by
            apply List.sum_nonneg
            intro c hc
            obtain ⟨ev, hev, rfl⟩ := List.mem_map.mp hc
            obtain ⟨u, hu, rfl⟩ := hands.grants ev hev
            exact (hposq u hu).le
          omega
        rcases List.mem_cons.mp ht with rfl | ht
        · show (s.sigLoop queue).1.semcnt < (s.sigLoop queue).1.cnt t
          rw [hands.cnt]
          omega
        · exact hall (fun hc => hatr (hands.atr ▸ hc)) t ht
    · rw [if_neg hlt]
      have hnonneg : 0 ≤ (s.grant tcb).semcnt := Int.sub_nonneg_of_le (Int.not_lt.mp hlt)
      by_cases hzero : (s.grant tcb).semcnt ≤ 0
      · rw [if_pos hzero]
        refine ⟨(Hands.none hnonneg).cons, fun _ t ht => ?_, fun _ t ht => ?_⟩
        · exact hzero.trans_lt (hposq t (List.mem_of_mem_head? ht))
        · exact hzero.trans_lt (hposq t ht)
      · rw [if_neg hzero]
        obtain ⟨hands, hstarved⟩ := ih hnonneg hposq
        exact ⟨hands.cons, hstarved⟩

/-! ## The invariant -/

/-- The counts add up, apart from who could still be served. -/
structure SemCounts (isemcnt : ℤ) (s : Semcb) (log : List SemEvent) : Prop where
  nonneg : 0 ≤ s.semcnt
  le : s.semcnt ≤ s.maxsem
  sum : isemcnt + signalledSum log = s.semcnt + grantedSum log
  pos : ∀ t ∈ s.wait_queue, 0 < s.cnt t
  nodup : s.wait_queue.Nodup

structure SemInv (isemcnt : ℤ) (s : Semcb) (log : List SemEvent) :
    Prop extends SemCounts isemcnt s log where
  starved : s.Starved

theorem signalledSum_of_grants {cnt : Tsk → ℤ}
    (h : ∀ ev ∈ evs, ∃ t ∈ l, ev = SemEvent.granted t (cnt t)) :
    signalledSum evs = 0 := by
  apply List.sum_eq_zero
  intro c hc
  obtain ⟨ev, hev, rfl⟩ := List.mem_map.mp hc
  obtain ⟨t, -, rfl⟩ := h ev hev
  rfl

theorem grantedSum_nonneg {cnt : Tsk → ℤ} (hpos : ∀ t ∈ l, 0 < cnt t)
    (h : ∀ ev ∈ evs, ∃ t ∈ l, ev = SemEvent.granted t (cnt t)) : 0 ≤ grantedSum evs := by
  apply List.sum_nonneg
  intro c hc
  obtain ⟨ev, hev, rfl⟩ := List.mem_map.mp hc
  obtain ⟨t, ht, rfl⟩ := h ev hev
  exact (hpos t ht).le

/-- Handing out counts to tasks of the queue keeps them adding up. -/
theorem SemCounts.hands (inv : SemCounts isemcnt s log) (hands : Hands l s s' evs)
    (hl : ∀ t ∈ l, t ∈ s.wait_queue) (hnodup : l.Nodup) : SemCounts isemcnt s' (log ++ evs) := by
  have hpos : ∀ t ∈ l, 0 < s.cnt t := fun t ht => inv.pos t (hl t ht)
  have hgrants := grantedSum_nonneg hpos hands.grants
  have hsum := hands.sum
  refine ⟨hands.nonneg, ?_, ?_, fun t ht => ?_, hnodup.sublist hands.queue⟩
  · have hle := inv.le
    rw [hands.maxsem]
    omega
  · have hall := inv.sum
    rw [signalledSum_append, grantedSum_append, signalledSum_of_grants hands.grants]
    omega
  · rw [hands.cnt]
    exact hpos t (hands.queue.subset ht)

theorem SemCounts.waitEnds (inv : SemCounts isemcnt s log) (t : Tsk) (ercd : Option ER) :
    SemCounts isemcnt s (log ++ [.waitEnds t ercd]) := by
  refine ⟨inv.nonneg, inv.le, ?_, inv.pos, inv.nodup⟩
  rw [signalledSum_append, grantedSum_append]
  simpa [SemEvent.signals, SemEvent.grants] using inv.sum

/-- A state with the same counts, and a queue of the same tasks or fewer. -/
theorem SemCounts.congr (inv : SemCounts isemcnt s log) (hsemcnt : s'.semcnt = s.semcnt)
    (hmaxsem : s'.maxsem = s.maxsem) (hpos : ∀ t ∈ s'.wait_queue, 0 < s'.cnt t)
    (hnodup : s'.wait_queue.Nodup) :
    SemCounts isemcnt s' log := by
  obtain ⟨h₁, h₂, h₃, -, -⟩ := inv
  refine ⟨?_, ?_, ?_, hpos, hnodup⟩
  · rwa [hsemcnt]
  · rwa [hsemcnt, hmaxsem]
  · rwa [hsemcnt]

/-! ## The hook -/

/-- With `TA_CNT` every task of the queue is starved, whatever the order. -/
theorem Semcb.starved_of_all (hatr : s.sematr &&& TA_CNT ≠ 0)
    (hall : ∀ t ∈ s.wait_queue, s.semcnt < s.cnt t) :
    s.Starved := ⟨fun hc => absurd hc hatr, fun _ => hall⟩

/-- The hook of a semaphore, after its queue has lost a task or changed its order. -/
theorem SemCounts.semChgPri (inv : SemCounts isemcnt s log) (queue : List Tsk) (t : Tsk)
    (oldpri : ℤ) (hqueue : ∀ t ∈ queue, t ∈ s.wait_queue) (hnodup : queue.Nodup)
    (hall : s.sematr &&& TA_CNT ≠ 0 → ∀ t ∈ queue, s.semcnt < s.cnt t)
    (hs : (if oldpri ≥ 0 then { s with
      wait_queue := gcbChangePriority s.priority t s.wait_queue } else s) = { s with wait_queue :=
        queue }) :
    Hands queue s (s.semChgPri t oldpri).1 (s.semChgPri t oldpri).2 ∧
      SemInv isemcnt (s.semChgPri t oldpri).1 (log ++ (s.semChgPri t oldpri).2) := by
  unfold Semcb.semChgPri
  rw [hs]
  dsimp only
  have inv' : SemCounts isemcnt { s with wait_queue := queue } log :=
    inv.congr rfl rfl (fun t ht => inv.pos t (hqueue t ht)) hnodup
  by_cases hatr : s.sematr &&& TA_CNT ≠ 0
  · rw [if_pos hatr]
    refine ⟨Hands.none inv.nonneg, ?_⟩
    rw [List.append_nil]
    exact ⟨inv', Semcb.starved_of_all hatr (hall hatr)⟩
  · rw [if_neg hatr]
    obtain ⟨hands, hhead⟩ := @wakeupLoop_hands { s with wait_queue := queue } queue inv.nonneg
    have hands' : Hands queue s _ _ :=
      ⟨hands.queue, hands.cnt, hands.atr, hands.maxsem, hands.nonneg, hands.sum, hands.grants⟩
    refine ⟨hands', inv'.hands hands (fun t ht => ht) hnodup, fun _ t ht => ?_, fun hc => ?_⟩
    · rw [hands.cnt]
      exact hhead t ht
    · rw [hands.atr] at hc
      exact absurd hc hatr

/-! ## System calls -/

/-- What is said of a call: a failed one leaves the count as it was, and a wait that ends takes
none. -/
structure SemKeeps (isemcnt : ℤ) (s : Semcb) (log : List SemEvent) (r : SemResult) : Prop where
  inv : SemInv isemcnt r.1 (log ++ r.2.1)
  fails : ∀ ercd, r.2.2 = some ercd → ercd < 0 → r.1.semcnt = s.semcnt
  ends : ∀ t ercd, .waitEnds t ercd ∈ r.2.1 →
    r.1.semcnt + grantedSum r.2.1 = s.semcnt ∧ ∀ cnt, .granted t cnt ∉ r.2.1

variable {r r' : SemResult}

theorem semKeeps_ite {c : Prop} [Decidable c] (h : c → SemKeeps isemcnt s log r)
    (h' : ¬c → SemKeeps isemcnt s log r') :
    SemKeeps isemcnt s log (if c then r else r') := by
  split_ifs with hc
  · exact h hc
  · exact h' hc

/-- The semaphore stays as it is, but for fields that no request depends on. -/
theorem SemInv.refuse (inv : SemInv isemcnt s log) (ercd : Option ℤ) {s' : Semcb}
    (hqueue : s'.wait_queue = s.wait_queue) (hatr : s'.sematr = s.sematr)
    (hsemcnt : s'.semcnt = s.semcnt) (hmaxsem : s'.maxsem = s.maxsem)
    (hcnt : ∀ t ∈ s.wait_queue, s'.cnt t = s.cnt t) : SemKeeps isemcnt s log (s', [], ercd) := by
  refine ⟨?_, fun _ _ _ => hsemcnt, fun t ercd h => absurd h List.not_mem_nil⟩
  rw [List.append_nil]
  refine ⟨inv.toSemCounts.congr hsemcnt hmaxsem (fun t ht => ?_) (hqueue ▸ inv.nodup),
    fun hc t ht => ?_, fun hc t ht => ?_⟩
  · rw [hqueue] at ht
    rw [hcnt t ht]
    exact inv.pos t ht
  · change t ∈ s'.wait_queue.head? at ht
    rw [hqueue] at ht
    show s'.semcnt < s'.cnt t
    rw [hsemcnt, hcnt t (List.mem_of_mem_head? ht)]
    exact inv.starved.1 (hatr ▸ hc) t ht
  · change t ∈ s'.wait_queue at ht
    rw [hqueue] at ht
    show s'.semcnt < s'.cnt t
    rw [hsemcnt, hcnt t ht]
    exact inv.starved.2 (hatr ▸ hc) t ht

theorem SemInv.same (inv : SemInv isemcnt s log) (ercd : Option ℤ) :
    SemKeeps isemcnt s log (s, [], ercd) :=
  inv.refuse ercd rfl rfl rfl rfl fun _ _ => rfl

/-- **A wait ends** without its counts, and those behind it may get theirs. -/
theorem SemInv.endWait (inv : SemInv isemcnt s log) (t : Tsk) (ercd : Option ER) (res : Option ℤ)
    (hres : ∀ ercd, res = some ercd → 0 ≤ ercd) :
    SemKeeps isemcnt s log ((s.endWait t ercd).1, (s.endWait t ercd).2, res) := by
  set s₁ : Semcb := { s with wait_queue := s.wait_queue.erase t } with hs₁
  have hsub : (s.wait_queue.erase t).Sublist s.wait_queue := List.erase_sublist
  have hpos : ∀ u ∈ s₁.wait_queue, 0 < s₁.cnt u := fun u hu => inv.pos u (hsub.subset hu)
  have hnodup : s₁.wait_queue.Nodup := inv.nodup.sublist hsub
  have counts : SemCounts isemcnt s₁ (log ++ [.waitEnds t ercd]) :=
    (inv.toSemCounts.waitEnds t ercd).congr rfl rfl hpos hnodup
  obtain ⟨hands, inv'⟩ := counts.semChgPri s₁.wait_queue t (-1) (fun u hu => hu) hnodup
    (fun hatr u hu => inv.starved.2 hatr u (hsub.subset hu)) (if_neg (by omega))
  refine ⟨?_, fun e he hneg => absurd (hres e he) (not_le.mpr hneg), fun u e hu =>
    ⟨?_, fun cnt hg => ?_⟩⟩
  · rw [List.append_assoc] at inv'
    exact inv'
  · show _ + grantedSum (.waitEnds t ercd :: (s₁.semChgPri t (-1)).2) = s.semcnt
    rw [grantedSum_cons]
    have hsum := hands.sum
    simp only [SemEvent.grants, zero_add]
    exact hsum
  · have hut : u = t := by
      rcases List.mem_cons.mp hu with heq | hu
      · exact (SemEvent.waitEnds.inj heq).1
      · obtain ⟨v, -, hv⟩ := hands.grants _ hu
        exact absurd hv (by simp)
    rcases List.mem_cons.mp hg with heq | hg
    · exact absurd heq (by simp)
    · obtain ⟨v, hv, heq⟩ := hands.grants _ hg
      have hvu : u = v := (SemEvent.granted.inj heq).1
      subst hvu hut
      exact (List.Nodup.mem_erase_iff inv.nodup).mp hv |>.1 rfl

theorem SemInv.tkSigSem (inv : SemInv isemcnt s log) (idOk : Bool) (prot : ER) (cnt : ℤ) :
    SemKeeps isemcnt s log (s.tkSigSem idOk prot cnt) := by
  unfold Semcb.tkSigSem
  refine semKeeps_ite (fun _ => inv.same _) fun _ => semKeeps_ite (fun _ => inv.same _) fun hcnt =>
    semKeeps_ite (fun _ => inv.same _) fun _ => semKeeps_ite (fun _ => inv.same _) fun hmax => ?_
  set s₁ : Semcb := { s with semcnt := s.semcnt + cnt } with hs₁
  have hnonneg := inv.nonneg
  have counts : SemCounts isemcnt s₁ (log ++ [.signalled cnt]) := by
    refine ⟨?_, ?_, ?_, inv.pos, inv.nodup⟩
    · show 0 ≤ s.semcnt + cnt
      omega
    · show s.semcnt + cnt ≤ s.maxsem
      omega
    · have hsum := inv.sum
      rw [signalledSum_append, grantedSum_append]
      simp only [signalledSum_cons, grantedSum_cons, SemEvent.signals, SemEvent.grants,
        signalledSum_nil, grantedSum_nil]
      show _ = s.semcnt + cnt + _
      omega
  obtain ⟨hands, hstarved⟩ := @sigLoop_hands s₁ s.wait_queue counts.nonneg inv.pos
  have inv' := counts.hands hands (fun _ ht => ht) inv.nodup
  rw [List.append_assoc] at inv'
  refine ⟨⟨inv', hstarved⟩, fun e he hneg => ?_, fun t e he => ?_⟩
  · rw [← Option.some.inj he] at hneg
    exact absurd hneg (lt_irrefl 0)
  · rcases List.mem_cons.mp he with heq | he
    · exact absurd heq (by simp)
    · obtain ⟨v, -, hv⟩ := hands.grants _ he
      exact absurd hv (by simp)

/-- A task waits whose request cannot be met. -/
theorem SemInv.makeWait (inv : SemInv isemcnt s log) (hself : self ∉ s.wait_queue) {cnt : ℤ}
    (hcnt : cnt > 0) (hwait : ¬((s.sematr &&& TA_CNT ≠ 0 ∨
      gcbTopOfWaitQueue s.sematr s.priority self s.wait_queue = self) ∧
      s.semcnt ≥ cnt)) :
    SemKeeps isemcnt s log ({ s with cnt := Function.update s.cnt self cnt }.makeWait self, [],
      none) := by
  set s' := Semcb.makeWait { s with cnt := Function.update s.cnt self cnt } self with hs'
  have hperm : s'.wait_queue.Perm (self :: s.wait_queue) :=
    gcbInsert_perm s.sematr s.priority self s.wait_queue
  have hself' : s'.cnt self = cnt := Function.update_self ..
  have hother {t : Tsk} (ht : t ∈ s.wait_queue) : s'.cnt t = s.cnt t :=
    Function.update_of_ne (ne_of_mem_of_not_mem ht hself) _ _
  have hlt (h : s.sematr &&& TA_CNT ≠ 0 ∨
    gcbTopOfWaitQueue s.sematr s.priority self s.wait_queue = self) :
      s.semcnt < cnt := not_le.mp fun hc => hwait ⟨h, hc⟩
  refine ⟨?_, fun _ he => absurd he.symm (Option.some_ne_none _), fun t e he =>
    absurd he List.not_mem_nil⟩
  rw [List.append_nil]
  refine ⟨inv.toSemCounts.congr rfl rfl (fun t ht => ?_) ?_, fun _ t ht => ?_, fun hatr t ht => ?_⟩
  · rcases List.mem_cons.mp (hperm.subset ht) with rfl | ht
    · rw [hself']
      exact hcnt
    · rw [hother ht]
      exact inv.pos t ht
  · exact hperm.nodup_iff.mpr (List.nodup_cons.mpr ⟨hself, inv.nodup⟩)
  · rename_i hatr
    rcases head?_gcbInsert ht with ⟨rfl, htop⟩ | ht
    · show s.semcnt < s'.cnt t
      rw [hself']
      exact hlt (Or.inr htop)
    · show s.semcnt < s'.cnt t
      rw [hother (List.mem_of_mem_head? ht)]
      exact inv.starved.1 hatr t ht
  · rcases List.mem_cons.mp (hperm.subset ht) with rfl | ht
    · show s.semcnt < s'.cnt t
      rw [hself']
      exact hlt (Or.inl hatr)
    · show s.semcnt < s'.cnt t
      rw [hother ht]
      exact inv.starved.2 hatr t ht

theorem SemInv.tkWaiSem (inv : SemInv isemcnt s log) (hself : self ∉ s.wait_queue)
    (idOk ddsp : Bool) (prot : ER) (cnt tmout : ℤ) :
    SemKeeps isemcnt s log (s.tkWaiSem self idOk ddsp prot cnt tmout) := by
  have hset (ercd : ℤ) :
      SemKeeps isemcnt s log ({ s with cnt := Function.update s.cnt self cnt }, [], some ercd) :=
    inv.refuse _ rfl rfl rfl rfl fun t ht =>
      Function.update_of_ne (ne_of_mem_of_not_mem ht hself) _ _
  unfold Semcb.tkWaiSem
  refine semKeeps_ite (fun _ => inv.same _) fun _ => semKeeps_ite (fun _ => inv.same _) fun hcnt =>
    semKeeps_ite (fun _ => inv.same _) fun _ => semKeeps_ite (fun _ => inv.same _) fun _ =>
    semKeeps_ite (fun _ => inv.same _) fun _ => semKeeps_ite (fun _ => inv.same _) fun _ =>
    semKeeps_ite (fun _ => inv.same _) fun _ => semKeeps_ite (fun htake => ?_) fun hwait =>
    semKeeps_ite (fun _ => hset _) fun _ => semKeeps_ite (fun _ => hset _) fun _ =>
    inv.makeWait hself (not_not.mp hcnt) hwait
  -- get semaphore count
  obtain ⟨-, hge⟩ := htake
  have hpos : 0 < cnt := not_not.mp hcnt
  have hle := inv.le
  refine ⟨⟨⟨?_, ?_, ?_, inv.pos, inv.nodup⟩, fun hatr t ht => ?_, fun hatr t ht => ?_⟩,
    fun e he hneg => ?_, fun t e he => ?_⟩
  · exact Int.sub_nonneg_of_le hge
  · show s.semcnt - cnt ≤ s.maxsem
    omega
  · have hsum := inv.sum
    rw [signalledSum_append, grantedSum_append]
    simp only [signalledSum_cons, grantedSum_cons, SemEvent.signals, SemEvent.grants,
      signalledSum_nil, grantedSum_nil]
    show _ = s.semcnt - cnt + _
    omega
  · have hlt := inv.starved.1 hatr t ht
    show s.semcnt - cnt < s.cnt t
    omega
  · have hlt := inv.starved.2 hatr t ht
    show s.semcnt - cnt < s.cnt t
    omega
  · rw [← Option.some.inj he] at hneg
    exact absurd hneg (lt_irrefl 0)
  · exact absurd (List.mem_singleton.mp he) (by simp)

/-! ## Every operation -/

theorem SemInv.tkDisWai (inv : SemInv isemcnt s log) (t : Tsk) (waitmask : ℕ) (chk : ER)
    (elsewhere : ℤ) :
    SemKeeps isemcnt s log (s.tkDisWai t waitmask chk elsewhere) := by
  have hset (ercd : ℤ) :
      SemKeeps isemcnt s log ({ s with waitmask := Function.update s.waitmask t waitmask }, [],
        some ercd) :=
    inv.refuse _ rfl rfl rfl rfl fun _ _ => rfl
  unfold Semcb.tkDisWai
  refine semKeeps_ite (fun _ => inv.same _) fun _ => semKeeps_ite (fun _ =>
    semKeeps_ite (fun _ => ?_) fun _ => hset _) fun _ => hset _
  have inv' : SemInv isemcnt { s with waitmask := Function.update s.waitmask t waitmask } log := by
    have hinv := (hset 0).inv
    rwa [List.append_nil] at hinv
  have hkeeps := inv'.endWait t (some E_DISWAI) (some 0) fun e he => (Option.some.inj he).le
  exact ⟨hkeeps.inv, hkeeps.fails, hkeeps.ends⟩

theorem SemInv.tkEnaWai (inv : SemInv isemcnt s log) (t : Tsk) (chk : ER) :
    SemKeeps isemcnt s log (s.tkEnaWai t chk) := by
  unfold Semcb.tkEnaWai
  exact semKeeps_ite (fun _ => inv.same _) fun _ => inv.refuse _ rfl rfl rfl rfl fun _ _ => rfl

theorem SemInv.waitReleaseTmout (inv : SemInv isemcnt s log) (t : Tsk) :
    SemKeeps isemcnt s log (s.waitReleaseTmout t) := by
  unfold Semcb.waitReleaseTmout
  exact semKeeps_ite (fun _ => inv.endWait t _ _ fun e he => absurd he.symm (Option.some_ne_none e))
    fun _ => inv.same _

theorem SemInv.tkRelWai (inv : SemInv isemcnt s log) (t : Tsk) (chk : ER) :
    SemKeeps isemcnt s log (s.tkRelWai t chk) := by
  unfold Semcb.tkRelWai
  exact semKeeps_ite (fun _ => inv.same _) fun _ => semKeeps_ite
    (fun _ => inv.endWait t _ _ fun e he => (Option.some.inj he).le) fun _ => inv.same _

theorem SemInv.tkTerTsk (inv : SemInv isemcnt s log) (t : Tsk) (chk : ER) :
    SemKeeps isemcnt s log (s.tkTerTsk t chk) := by
  unfold Semcb.tkTerTsk
  exact semKeeps_ite (fun _ => inv.same _) fun _ => semKeeps_ite
    (fun _ => inv.endWait t _ _ fun e he => (Option.some.inj he).le) fun _ => inv.same _

/-- A change of priority reorders the queue, and may bring a request that can be met to its head. -/
theorem SemInv.tkChgPri (inv : SemInv isemcnt s log) (t : Tsk) (priority : ℕ) (chk : ER) :
    SemKeeps isemcnt s log (s.tkChgPri t priority chk) := by
  unfold Semcb.tkChgPri
  refine semKeeps_ite (fun _ => inv.same _) fun _ => ?_
  unfold Semcb.changeTaskPriority
  set s₁ : Semcb := { s with priority := Function.update s.priority t priority } with hs₁
  have hsame : SemKeeps isemcnt s log (s₁, [], some E_OK) :=
    inv.refuse _ rfl rfl rfl rfl fun _ _ => rfl
  dsimp only
  by_cases hhook : t ∈ s₁.wait_queue ∧ s₁.sematr &&& TA_TPRI ≠ 0
  · rw [if_pos hhook]
    have inv₁ : SemInv isemcnt s₁ log := by
      have hinv := hsame.inv
      rwa [List.append_nil] at hinv
    have hperm := gcbChangePriority_perm s₁.priority hhook.1
    obtain ⟨hands, inv'⟩ :=
      inv₁.toSemCounts.semChgPri _ t (s.priority t) (fun u hu => hperm.subset hu)
      (hperm.nodup_iff.mpr inv₁.nodup) (fun hatr u hu => inv₁.starved.2 hatr u (hperm.subset hu))
      (if_pos (Int.natCast_nonneg _))
    refine ⟨inv', fun e he hneg => ?_, fun u e he => ?_⟩
    · rw [← Option.some.inj he] at hneg
      exact absurd hneg (lt_irrefl 0)
    · obtain ⟨v, -, hv⟩ := hands.grants _ he
      exact absurd hv (by simp)
  · rw [if_neg hhook]
    exact hsame

theorem SemInv.exec (inv : SemInv isemcnt s log) {op : SemOp} (legal : op.Legal s) :
    SemKeeps isemcnt s log (op.exec s) := by
  cases op with
  | sigSem idOk prot cnt => exact inv.tkSigSem idOk prot cnt
  | waiSem self idOk ddsp prot cnt tmout => exact inv.tkWaiSem legal idOk ddsp prot cnt tmout
  | timeout t => exact inv.waitReleaseTmout t
  | relWai t chk => exact inv.tkRelWai t chk
  | disWai t waitmask chk elsewhere => exact inv.tkDisWai t waitmask chk elsewhere
  | enaWai t chk => exact inv.tkEnaWai t chk
  | terTsk t chk => exact inv.tkTerTsk t chk
  | chgPri t priority chk => exact inv.tkChgPri t priority chk

/-! ## Runs -/

theorem semInv_create {rsatrOk : Bool} {prot : ER} {sematr : ℕ} {maxsem : ℤ} {s₀ : Semcb}
    (h : tkCreSem rsatrOk prot sematr isemcnt maxsem s₀ = .ok s) : SemInv isemcnt s [] := by
  unfold tkCreSem at h
  split_ifs at h with _ hisem _ hle
  have hs := Except.ok.inj h
  subst hs
  refine ⟨⟨hisem, hle, rfl, fun t ht => absurd ht List.not_mem_nil, List.nodup_nil⟩,
    fun _ t ht => absurd ht (Option.not_mem_none t), fun _ t ht => absurd ht List.not_mem_nil⟩

theorem SemRun.inv (run : SemRun isemcnt s log) : SemInv isemcnt s log := by
  induction run with
  | create h => exact semInv_create h
  | step op _ legal ih => exact (ih.exec legal).inv

/-- **Counts.** In every state of a run the counts add up and stay in their bounds, no request that
could be met is left waiting, a call that fails leaves the count as it was, and a wait that ends
without its counts has taken none: those that it held up are granted theirs, and no others. -/
theorem semRun_counts (run : SemRun isemcnt s log) :
    (0 ≤ s.semcnt ∧ s.semcnt ≤ s.maxsem) ∧ isemcnt + signalledSum log = s.semcnt + grantedSum log ∧
      s.Starved ∧
      ∀ op : SemOp, op.Legal s →
        (∀ ercd, (op.exec s).2.2 = some ercd → ercd < 0 → (op.exec s).1.semcnt = s.semcnt) ∧
          ∀ t ercd, .waitEnds t ercd ∈ (op.exec s).2.1 →
            (op.exec s).1.semcnt + grantedSum (op.exec s).2.1 = s.semcnt ∧
            ∀ cnt, .granted t cnt ∉ (op.exec s).2.1 := by
  have inv := run.inv
  exact ⟨⟨inv.nonneg, inv.le⟩, inv.sum, inv.starved, fun op legal =>
    ⟨(inv.exec legal).fails, (inv.exec legal).ends⟩⟩

/-- Task 1 takes two of three counts and tasks 2 and 3 wait for two and one; the wait of task 2
times out, and task 3 is served. -/
theorem semRun_counts_timeout :
    ∃ s log, log = [.granted 1 2, .waitEnds 2 (some E_TMOUT), .granted 3 1] ∧ s.semcnt = 0 ∧
      (0 ≤ s.semcnt ∧ s.semcnt ≤ s.maxsem) ∧ 3 + signalledSum log = s.semcnt + grantedSum log ∧
      s.Starved ∧
      ∀ op : SemOp, op.Legal s →
        (∀ ercd, (op.exec s).2.2 = some ercd → ercd < 0 → (op.exec s).1.semcnt = s.semcnt) ∧
          ∀ t ercd, .waitEnds t ercd ∈ (op.exec s).2.1 →
            (op.exec s).1.semcnt + grantedSum (op.exec s).2.1 = s.semcnt ∧
            ∀ cnt, .granted t cnt ∉ (op.exec s).2.1 := by
  let s₀ : Semcb := ⟨[], 0, 0, 0, fun _ => 10, fun _ => 0, fun _ => false, fun _ => 0⟩
  let s₁ : Semcb := { s₀ with semcnt := 3, maxsem := 5 }
  have run₁ : SemRun 3 s₁ [] := SemRun.create (show tkCreSem true E_OK 0 3 5 s₀ = .ok s₁ from rfl)
  have run₂ := run₁.step (.waiSem 1 true false E_OK 2 TMO_FEVR) List.not_mem_nil
  have run₃ := run₂.step (.waiSem 2 true false E_OK 2 100) (show (2 : Tsk) ∉ Semcb.wait_queue _ by
    decide)
  have run₄ :=
    run₃.step (.waiSem 3 true false E_OK 1 TMO_FEVR) (show (3 : Tsk) ∉ Semcb.wait_queue _ by decide)
  have run₅ := run₄.step (.timeout 2) trivial
  exact ⟨_, _, by decide, by decide, semRun_counts run₅⟩

end SmpTKernel
