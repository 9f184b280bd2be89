import SmpTKernel.FastLock

/-!
# Who holds a high-speed lock

There is one token for the lock while `cnt` says that it is in use: a task that holds the lock has
it, or one that is about to signal, or it is the count of the semaphore. `FastLockInv` relates it to
the counter and to the tasks in `Lock`, and is kept unless the wait of a task in `Lock` is released
by force, `Lock` is to wait where no task can, or `cnt` overflows.
-/

namespace SmpTKernel

open Census

variable {s : FastLock} {sem : Semcb} {t u : Tsk} {queue : List Tsk}

/-! ## The semaphore of a lock -/

/-- The semaphore has one count at most, for which each waiting task asks, and waits cannot be
disabled. -/
structure LockSem (sem : Semcb) : Prop where
  sematr : sem.sematr = TA_TPRI ||| TA_NODISWAI
  maxsem : sem.maxsem = 1
  semcnt : 0 ≤ sem.semcnt
  nodup : sem.wait_queue.Nodup
  cnt : ∀ t ∈ sem.wait_queue, sem.cnt t = 1
  nodiswai : ∀ t ∈ sem.wait_queue, sem.nodiswai t = true
  drained : sem.wait_queue ≠ [] → sem.semcnt = 0

theorem LockSem.shrink (h : LockSem sem) (hq : queue.Subperm sem.wait_queue) :
    LockSem { sem with wait_queue := queue } where
  sematr := h.sematr
  maxsem := h.maxsem
  semcnt := h.semcnt
  nodup := by
    obtain ⟨l, hl, hsub⟩ := hq
    exact hl.nodup_iff.mp (h.nodup.sublist hsub)
  cnt t ht := h.cnt t (hq.subset ht)
  nodiswai t ht := h.nodiswai t (hq.subset ht)
  drained hne := by
    obtain ⟨t, ht⟩ := List.exists_mem_of_ne_nil _ hne
    exact h.drained (List.ne_nil_of_mem (hq.subset ht))

/-- The two ways in which `tk_wai_sem` goes on. -/
theorem LockSem.tkWaiSem (h : LockSem sem) (t : Tsk) :
    0 < sem.semcnt ∧ sem.tkWaiSem t true false E_OK 1 TMO_FEVR =
        ({ sem with semcnt := sem.semcnt - 1 }, [.granted t 1], some E_OK) ∨
      sem.semcnt = 0 ∧ sem.tkWaiSem t true false E_OK 1 TMO_FEVR =
        (Semcb.makeWait { sem with cnt := Function.update sem.cnt t 1 } t, [], none) := by
  have hdis : isDiswai sem.sematr (sem.waitmask t) TTW_SEM = false := by
    unfold isDiswai
    rw [h.sematr]
    exact decide_eq_false fun hc => absurd hc.2 (by decide)
  have hcnt : ¬(1 : ℤ) > sem.maxsem := by rw [h.maxsem]; decide
  have htm : ¬¬TMO_FEVR ≥ TMO_FEVR := not_not.mpr le_rfl
  unfold Semcb.tkWaiSem
  rw [if_neg (by decide), if_neg (by decide), if_neg htm, if_neg (by decide), if_neg (by decide),
    if_neg hcnt, hdis, if_neg (by decide)]
  by_cases hc : (sem.sematr &&& TA_CNT ≠ 0 ∨
      gcbTopOfWaitQueue sem.sematr sem.priority t sem.wait_queue = t) ∧ sem.semcnt ≥ 1
  · rw [if_pos hc]
    exact Or.inl ⟨hc.2, rfl⟩
  · rw [if_neg hc]
    simp only [hdis, Bool.false_eq_true, if_false]
    refine Or.inr ⟨?_, if_neg (by decide)⟩
    -- a task that is not the first one finds nothing
    by_contra hne
    have hpos : sem.semcnt ≥ 1 := by have := h.semcnt; omega
    refine hc ⟨Or.inr ?_, hpos⟩
    rw [not_not.mp fun hq => hne (h.drained hq)]
    rfl

theorem LockSem.makeWait (h : LockSem sem) (h0 : sem.semcnt = 0) (ht : t ∉ sem.wait_queue) :
    LockSem (Semcb.makeWait { sem with cnt := Function.update sem.cnt t 1 } t) := by
  have hperm := gcbInsert_perm sem.sematr sem.priority t sem.wait_queue
  refine ⟨h.sematr, h.maxsem, h.semcnt, hperm.nodup_iff.mpr (List.nodup_cons.mpr ⟨ht, h.nodup⟩), ?_,
    ?_, fun _ => h0⟩
  · intro u hu
    show Function.update sem.cnt t 1 u = 1
    rcases List.mem_cons.mp (hperm.subset hu) with rfl | hu
    · exact Function.update_self ..
    · rw [Function.update_of_ne (ne_of_mem_of_not_mem hu ht)]
      exact h.cnt u hu
  · intro u hu
    show Function.update sem.nodiswai t _ u = true
    rcases List.mem_cons.mp (hperm.subset hu) with rfl | hu
    · rw [Function.update_self, h.sematr]
      decide
    · rw [Function.update_of_ne (ne_of_mem_of_not_mem hu ht)]
      exact h.nodiswai u hu

/-- A signal is accepted if no count is kept; the count is kept if nobody waits. -/
theorem LockSem.tkSigSem_nil (h : LockSem sem) (h0 : sem.semcnt = 0) (hq : sem.wait_queue = []) :
    sem.tkSigSem true E_OK 1 = ({ sem with semcnt := 1 }, [.signalled 1], some E_OK) := by
  have hmax : ¬(1 : ℤ) > sem.maxsem - sem.semcnt := by rw [h.maxsem, h0]; decide
  unfold Semcb.tkSigSem
  rw [if_neg (by decide), if_neg (by decide), if_neg (by decide), if_neg hmax, hq, h0]
  simp [Semcb.sigLoop, ← hq]

theorem LockSem.tkSigSem_cons (h : LockSem sem) (h0 : sem.semcnt = 0)
    (hq : sem.wait_queue = u :: queue) :
    sem.tkSigSem true E_OK 1 =
      ({ sem with wait_queue := queue }, [.signalled 1, .granted u 1], some E_OK) := by
  have hmax : ¬(1 : ℤ) > sem.maxsem - sem.semcnt := by rw [h.maxsem, h0]; decide
  have hu : sem.cnt u = 1 := h.cnt u (by rw [hq]; exact List.mem_cons_self)
  unfold Semcb.tkSigSem
  rw [if_neg (by decide), if_neg (by decide), if_neg (by decide), if_neg hmax, hq, h0]
  simp [Semcb.sigLoop, Semcb.grant, hu, ← h0]

theorem LockSem.wakeupLoop (h : LockSem sem) : sem.wakeupLoop sem.wait_queue = (sem, []) := by
  rcases hq : sem.wait_queue with _ | ⟨u, queue⟩
  · rw [Semcb.wakeupLoop, ← hq]
  · have hu : sem.cnt u = 1 := h.cnt u (by rw [hq]; exact List.mem_cons_self)
    have h0 : sem.semcnt = 0 := h.drained (by rw [hq]; exact List.cons_ne_nil u queue)
    rw [Semcb.wakeupLoop, if_pos (show sem.semcnt < sem.cnt u by rw [hu, h0]; decide), ← hq]

theorem LockSem.semChgPri (h : LockSem sem) (ht : t ∈ sem.wait_queue) {oldpri : ℤ}
    (hpri : oldpri ≥ 0) :
    LockSem { sem with wait_queue := gcbChangePriority sem.priority t sem.wait_queue } ∧
      sem.semChgPri t oldpri =
      ({ sem with wait_queue := gcbChangePriority sem.priority t sem.wait_queue }, []) := by
  have h' := h.shrink (gcbChangePriority_perm sem.priority ht).subperm
  have hcnt : sem.sematr &&& TA_CNT = 0 := by rw [h.sematr]; decide
  refine ⟨h', ?_⟩
  rw [← h'.wakeupLoop]
  simp [Semcb.semChgPri, hpri, hcnt]

theorem LockSem.endWait (h : LockSem sem) (t : Tsk) (ercd : Option ER) :
    sem.endWait t ercd = ({ sem with wait_queue := sem.wait_queue.erase t },
      [.waitEnds t ercd]) := by
  have h' := h.shrink (List.erase_sublist (a := t)).subperm
  have hcnt : sem.sematr &&& TA_CNT = 0 := by rw [h.sematr]; decide
  have e : Semcb.semRelWai { sem with wait_queue := sem.wait_queue.erase t } t =
      ({ sem with wait_queue := sem.wait_queue.erase t }, []) := by
    rw [← h'.wakeupLoop]
    simp [Semcb.semRelWai, Semcb.semChgPri, hcnt]
  unfold Semcb.endWait
  rw [e]

/-- Priorities and wait masks are not the business of the semaphore. -/
theorem LockSem.others (h : LockSem sem) (priority waitmask : Tsk → ℕ) :
    LockSem { sem with priority := priority, waitmask := waitmask } :=
  ⟨h.sematr, h.maxsem, h.semcnt, h.nodup, h.cnt, h.nodiswai, h.drained⟩

/-! ## The invariant -/

/-- Counted in `cnt`. -/
def LockPos.Uses (p : LockPos) : Prop := p = .waiSem ∨ p = .blocked ∨ p = .locked

/-- Has the token of the lock. -/
def LockPos.Bears (p : LockPos) : Prop := p = .locked ∨ p = .sigSem

instance : DecidablePred LockPos.Uses := fun p => by unfold LockPos.Uses; infer_instance

instance : DecidablePred LockPos.Bears := fun p => by unfold LockPos.Bears; infer_instance

/-- `lost` are the tasks that were terminated in `Lock`; nobody takes them out of `cnt` any more. -/
structure FastLockInv (s : FastLock) : Prop where
  sem : LockSem s.sem
  queue : ∀ t, t ∈ s.sem.wait_queue ↔ s.pos t = .blocked
  users : ∃ n lost : ℕ, Count s.pos LockPos.Uses n ∧ s.cnt.toInt = n + lost - 1
  token : ∃ n : ℕ, Count s.pos LockPos.Bears n ∧
    (n : ℤ) + s.sem.semcnt = if s.cnt.toInt < 0 then 0 else 1

/-- What is promised of a lock: one task has it at any time, its signal finds room in the semaphore,
and no task is blocked while the lock is free and nobody is about to signal. -/
structure FastLockRight (s : FastLock) : Prop where
  exclusive : ∀ t u, s.pos t = .locked → s.pos u = .locked → t = u
  signals : ∀ t, s.pos t = .sigSem → s.signal.2.2 ≠ some E_QOVR
  awake : ¬((∀ t, s.pos t ≠ .locked) ∧ (∃ t, s.pos t = .blocked) ∧ s.sem.semcnt = 0 ∧
    ∀ t, s.pos t ≠ .sigSem)

/-- A task that has the token is the only one, and there is no count. -/
theorem FastLockInv.bearer (inv : FastLockInv s) (ht : (s.pos t).Bears) :
    0 ≤ s.cnt.toInt ∧ s.sem.semcnt = 0 ∧ Count s.pos LockPos.Bears 1 := by
  obtain ⟨n, hn, htok⟩ := inv.token
  have hpos := hn.pos ht
  have h0 := inv.sem.semcnt
  by_cases hc : s.cnt.toInt < 0
  · rw [if_pos hc] at htok
    omega
  · rw [if_neg hc] at htok
    obtain rfl : n = 1 := by omega
    exact ⟨not_lt.mp hc, by omega, hn⟩

theorem FastLockInv.signal_ok (inv : FastLockInv s) (ht : s.pos t = .sigSem) :
    s.signal.2.2 = some E_OK := by
  obtain ⟨-, h0, -⟩ := inv.bearer (Or.inr ht)
  unfold FastLock.signal
  rcases hq : s.sem.wait_queue with _ | ⟨u, queue⟩
  · rw [inv.sem.tkSigSem_nil h0 hq]
  · rw [inv.sem.tkSigSem_cons h0 hq]

theorem FastLockInv.right (inv : FastLockInv s) : FastLockRight s where
  exclusive t u ht hu := (inv.bearer (Or.inl ht)).2.2.unique le_rfl (Or.inl ht) (Or.inl hu)
  signals t ht := by
    rw [inv.signal_ok ht]
    decide
  awake := by
    rintro ⟨hfree, ⟨t, ht⟩, h0, hsig⟩
    obtain ⟨n, lost, hn, hcnt⟩ := inv.users
    have hpos := hn.pos (a := t) (Or.inr (Or.inl ht))
    obtain ⟨m, hm, htok⟩ := inv.token
    rw [h0, if_neg (by omega), add_zero] at htok
    obtain ⟨u, hu⟩ := hm.exists (by omega)
    exact hu.elim (hfree u) (hsig u)

/-! ## Steps -/

/-- A task that is not blocked goes where it is not blocked. -/
theorem FastLockInv.moves (inv : FastLockInv s) {p : LockPos} (ht : s.pos t ≠ .blocked)
    (hp : p ≠ .blocked) (u : Tsk) :
    u ∈ s.sem.wait_queue ↔ Function.update s.pos t p u = .blocked := by
  rw [inv.queue u]
  rcases eq_or_ne u t with rfl | hne
  · rw [Function.update_self]
    exact ⟨fun h => absurd h ht, fun h => absurd h hp⟩
  · rw [Function.update_of_ne hne]

theorem FastLockInv.inc (inv : FastLockInv s) (ht : s.pos t = .outside)
    (hmax : s.cnt.toInt ≠ 2 ^ 31 - 1) :
    FastLockInv (s.inc t) := by
  obtain ⟨n, lost, hn, hcnt⟩ := inv.users
  obtain ⟨m, hm, htok⟩ := inv.token
  have hinc := toInt_atomicInc hmax
  have h0 := inv.sem.semcnt
  have hblocked : s.pos t ≠ .blocked := by rw [ht]; decide
  have huses : ¬(s.pos t).Uses := by rw [ht]; decide
  have hbears : ¬(s.pos t).Bears := by rw [ht]; decide
  have hcnt' : (atomicInc s.cnt).toInt = (n + 1 : ℕ) + lost - 1 := by omega
  unfold FastLock.inc
  by_cases hc : (atomicInc s.cnt).toInt > 0
  · -- others are at the lock
    simp only [if_pos hc]
    refine ⟨inv.sem, inv.moves hblocked (by decide), ⟨n + 1, lost, hn.join huses (by decide),
      hcnt'⟩, m, hm.stay (iff_of_false (by decide) hbears), ?_⟩
    show _ = if (atomicInc s.cnt).toInt < 0 then 0 else 1
    rw [htok, if_neg (by omega), if_neg (by omega)]
  · simp only [if_neg hc]
    refine ⟨inv.sem, inv.moves hblocked (by decide), ⟨n + 1, lost, hn.join huses (by decide),
      hcnt'⟩, m + 1, hm.join hbears (by decide), ?_⟩
    show ((m + 1 : ℕ) : ℤ) + s.sem.semcnt = if (atomicInc s.cnt).toInt < 0 then 0 else 1
    rw [if_pos (by omega)] at htok
    rw [if_neg (by omega)]
    omega

theorem FastLockInv.dec (inv : FastLockInv s) (ht : s.pos t = .locked) : FastLockInv (s.dec t) := by
  obtain ⟨n, lost, hn, hcnt⟩ := inv.users
  obtain ⟨hpos, h0, hm⟩ := inv.bearer (Or.inl ht)
  have hblocked : s.pos t ≠ .blocked := by rw [ht]; decide
  have huses : (s.pos t).Uses := by rw [ht]; decide
  have hbears : (s.pos t).Bears := by rw [ht]; decide
  have hn0 := hn.pos huses
  have hdec := toInt_atomicDec (x := s.cnt) (by omega)
  have hcnt' : (atomicDec s.cnt).toInt = (n - 1 : ℕ) + lost - 1 := by omega
  unfold FastLock.dec
  by_cases hc : (atomicDec s.cnt).toInt + 1 > 0
  · -- others are at the lock
    simp only [if_pos hc]
    refine ⟨inv.sem, inv.moves hblocked (by decide), ⟨n - 1, lost, hn.leave huses (by decide),
      hcnt'⟩, 1, hm.stay (iff_of_true (by decide) hbears), ?_⟩
    show _ = if (atomicDec s.cnt).toInt < 0 then 0 else 1
    rw [h0, if_neg (by omega)]
    rfl
  · simp only [if_neg hc]
    refine ⟨inv.sem, inv.moves hblocked (by decide), ⟨n - 1, lost, hn.leave huses (by decide),
      hcnt'⟩, 0, hm.leave hbears (by decide), ?_⟩
    show _ = if (atomicDec s.cnt).toInt < 0 then 0 else 1
    rw [h0, if_pos (by omega)]
    rfl

theorem FastLockInv.waiSem (inv : FastLockInv s) (ht : s.pos t = .waiSem) :
    FastLockInv (s.waiSem t false) := by
  obtain ⟨n, lost, hn, hcnt⟩ := inv.users
  obtain ⟨m, hm, htok⟩ := inv.token
  have hblocked : s.pos t ≠ .blocked := by rw [ht]; decide
  have huses : (s.pos t).Uses := by rw [ht]; decide
  have hbears : ¬(s.pos t).Bears := by rw [ht]; decide
  have hn0 := hn.pos huses
  have hmem : t ∉ s.sem.wait_queue := fun hc => hblocked ((inv.queue t).mp hc)
  rw [if_neg (by omega)] at htok
  unfold FastLock.waiSem
  rcases inv.sem.tkWaiSem t with ⟨hpos, e⟩ | ⟨h0, e⟩
  · -- the count is the token
    have hsem : LockSem { s.sem with semcnt := s.sem.semcnt - 1 } :=
      ⟨inv.sem.sematr, inv.sem.maxsem, Int.le_sub_one_of_lt hpos, inv.sem.nodup, inv.sem.cnt,
        inv.sem.nodiswai, fun hne => absurd (inv.sem.drained hne) hpos.ne'⟩
    simp only [e, Option.isSome_some, if_true]
    refine ⟨hsem, inv.moves hblocked (by decide), ⟨n, lost, hn.stay (iff_of_true (by decide) huses),
      hcnt⟩, m + 1, hm.join hbears (by decide), ?_⟩
    show ((m + 1 : ℕ) : ℤ) + (s.sem.semcnt - 1) = if s.cnt.toInt < 0 then 0 else 1
    rw [if_neg (by omega)]
    omega
  · simp only [e, Option.isSome_none, Bool.false_eq_true, if_false]
    refine ⟨inv.sem.makeWait h0 hmem, fun u => ?_,
      ⟨n, lost, hn.stay (iff_of_true (by decide) huses), hcnt⟩, m,
      hm.stay (iff_of_false (by decide) hbears), ?_⟩
    · show u ∈ gcbInsert _ _ _ _ ↔ Function.update s.pos t .blocked u = .blocked
      rw [(gcbInsert_perm _ _ _ _).mem_iff, List.mem_cons]
      rcases eq_or_ne u t with rfl | hne
      · rw [Function.update_self]
        exact iff_of_true (Or.inl rfl) rfl
      · rw [Function.update_of_ne hne, ← inv.queue u]
        exact or_iff_right hne
    · show (m : ℤ) + s.sem.semcnt = if s.cnt.toInt < 0 then 0 else 1
      rw [if_neg (by omega)]
      exact htok

theorem FastLockInv.sigSem (inv : FastLockInv s) (ht : s.pos t = .sigSem) :
    FastLockInv (s.sigSem t) := by
  obtain ⟨n, lost, hn, hcnt⟩ := inv.users
  obtain ⟨hpos, h0, hm⟩ := inv.bearer (Or.inr ht)
  have hblocked : s.pos t ≠ .blocked := by rw [ht]; decide
  have huses : ¬(s.pos t).Uses := by rw [ht]; decide
  have hbears : (s.pos t).Bears := by rw [ht]; decide
  have hn' : Count (Function.update s.pos t .outside) LockPos.Uses n :=
    hn.stay (iff_of_false (by decide) huses)
  have hm' : Count (Function.update s.pos t .outside) LockPos.Bears 0 := hm.leave hbears (by decide)
  unfold FastLock.sigSem FastLock.signal
  rcases hq : s.sem.wait_queue with _ | ⟨u, queue⟩
  · -- nobody waits: the count keeps the token
    rw [inv.sem.tkSigSem_nil h0 hq]
    have hsem : LockSem { s.sem with semcnt := 1 } :=
      ⟨inv.sem.sematr, inv.sem.maxsem, Int.one_nonneg, inv.sem.nodup, inv.sem.cnt, inv.sem.nodiswai,
        fun hne => absurd hq hne⟩
    refine ⟨hsem, inv.moves hblocked (by decide), ⟨n, lost, hn', hcnt⟩, 0, hm', ?_⟩
    show _ = if s.cnt.toInt < 0 then 0 else 1
    rw [if_neg (by omega)]
    rfl
  · -- the first task in the queue has it
    have hnodup : (u :: queue).Nodup := hq ▸ inv.sem.nodup
    have hu : s.pos u = .blocked := (inv.queue u).mp (by rw [hq]; exact List.mem_cons_self)
    have hut : u ≠ t := by
      rintro rfl
      exact hblocked hu
    have hpu : Function.update s.pos t .outside u = .blocked := by
      rw [Function.update_of_ne hut, hu]
    rw [inv.sem.tkSigSem_cons h0 hq]
    refine ⟨inv.sem.shrink (hq ▸ (List.sublist_cons_self u queue).subperm), fun v => ?_,
      ⟨n, lost, hn'.stay (iff_of_true (by decide) (by rw [hpu]; decide)), hcnt⟩, 1,
      hm'.join (by rw [hpu]; decide) (by decide), ?_⟩
    · show v ∈ queue ↔ Function.update (Function.update s.pos t .outside) u .locked v = .blocked
      rcases eq_or_ne v u with rfl | hvu
      · rw [Function.update_self]
        exact iff_of_false (List.nodup_cons.mp hnodup).1 nofun
      · rw [Function.update_of_ne hvu, ← inv.moves hblocked (by decide) v, hq, List.mem_cons]
        exact (or_iff_right hvu).symm
    · show _ = if s.cnt.toInt < 0 then 0 else 1
      rw [if_neg (by omega)]
      show ((1 : ℕ) : ℤ) + s.sem.semcnt = 1
      rw [h0]
      rfl

/-- Calls that change the queue or the waits, but not who waits. -/
theorem FastLockInv.congr (inv : FastLockInv s) (hsem : LockSem sem)
    (hq : ∀ t, t ∈ sem.wait_queue ↔ t ∈ s.sem.wait_queue) (hcnt : sem.semcnt = s.sem.semcnt) :
    FastLockInv { s with sem := sem } :=
  ⟨hsem, fun t => (hq t).trans (inv.queue t), inv.users, by
    obtain ⟨m, hm, htok⟩ := inv.token
    exact ⟨m, hm, by rw [← htok, hcnt]⟩⟩

theorem FastLockInv.terminated (inv : FastLockInv s) (ht : t ∈ s.sem.wait_queue) :
    FastLockInv { s with
      sem := { s.sem with wait_queue := s.sem.wait_queue.erase t }
      pos := Function.update s.pos t .outside } := by
  obtain ⟨n, lost, hn, hcnt⟩ := inv.users
  obtain ⟨m, hm, htok⟩ := inv.token
  have hpos : s.pos t = .blocked := (inv.queue t).mp ht
  have huses : (s.pos t).Uses := by rw [hpos]; decide
  have hbears : ¬(s.pos t).Bears := by rw [hpos]; decide
  have hn0 := hn.pos huses
  refine ⟨inv.sem.shrink List.erase_sublist.subperm, fun u => ?_,
    ⟨n - 1, lost + 1, hn.leave huses (by decide), ?_⟩, m, hm.stay (iff_of_false (by decide) hbears),
    htok⟩
  · show u ∈ s.sem.wait_queue.erase t ↔ Function.update s.pos t .outside u = .blocked
    rw [inv.sem.nodup.mem_erase_iff, inv.queue u]
    rcases eq_or_ne u t with rfl | hne
    · rw [Function.update_self]
      exact iff_of_false (fun hc => hc.1 rfl) nofun
    · rw [Function.update_of_ne hne]
      exact and_iff_right hne
  · show s.cnt.toInt = _
    omega

/-- The condition under which a step of a lock keeps what it promises: no wait in `Lock` is released
by force, `Lock` finds others at the lock only where a task can wait, and `cnt` does not
overflow. -/
def FastLockOp.Keeps (s : FastLock) : FastLockOp → Prop
  | inc _ => s.cnt.toInt ≠ 2 ^ 31 - 1
  | kernel (.relWai t chk) => t ∈ s.sem.wait_queue → chk ≠ E_OK
  | waiSem _ ddsp => ddsp = false
  | dec _ | sigSem _ | kernel _ => True

theorem FastLockInv.quiet (inv : FastLockInv s) {r : SemResult} (hsem : LockSem r.1)
    (hevs : r.2.1 = []) (hq : ∀ t, t ∈ r.1.wait_queue ↔ t ∈ s.sem.wait_queue)
    (hcnt : r.1.semcnt = s.sem.semcnt) :
    FastLockInv { s with sem := r.1, pos := r.2.1.foldl lockReturns s.pos } := by
  rw [hevs]
  exact inv.congr hsem hq hcnt

theorem FastLockInv.kernel (inv : FastLockInv s) {op : SemOp}
    (legal : (FastLockOp.kernel op).Legal s) (hop : (FastLockOp.kernel op).Keeps s) :
    FastLockInv (s.kernel op) := by
  have same {ercd : Option ℤ} : FastLockInv { s with
      sem := ((s.sem, [], ercd) : SemResult).1
      pos := ((s.sem, [], ercd) : SemResult).2.1.foldl lockReturns s.pos } := inv
  unfold FastLock.kernel
  cases op with
  | sigSem idOk prot cnt => exact absurd legal id
  | waiSem self idOk ddsp prot cnt tmout => exact absurd legal id
  | timeout t => exact absurd legal id
  | relWai t chk =>
    simp only [SemOp.exec, Semcb.tkRelWai]
    by_cases hchk : chk ≠ E_OK
    · rw [if_pos hchk]
      exact same
    · rw [if_neg hchk, if_neg fun ht => hchk (hop ht)]
      exact same
  | disWai t waitmask chk elsewhere =>
    simp only [SemOp.exec, Semcb.tkDisWai]
    by_cases hchk : chk ≠ E_OK
    · rw [if_pos hchk]
      exact same
    rw [if_neg hchk]
    have hsem := inv.sem.others s.sem.priority (Function.update s.sem.waitmask t waitmask)
    by_cases ht : t ∈ s.sem.wait_queue
    · -- `TA_NODISWAI`
      rw [if_pos ht, if_neg (by rw [inv.sem.nodiswai t ht]; simp)]
      exact inv.quiet hsem rfl (fun _ => Iff.rfl) rfl
    · rw [if_neg ht]
      exact inv.quiet hsem rfl (fun _ => Iff.rfl) rfl
  | enaWai t chk =>
    simp only [SemOp.exec, Semcb.tkEnaWai]
    by_cases hchk : chk ≠ E_OK
    · rw [if_pos hchk]
      exact same
    rw [if_neg hchk]
    exact inv.quiet (inv.sem.others s.sem.priority (Function.update s.sem.waitmask t 0)) rfl
      (fun _ => Iff.rfl) rfl
  | terTsk t chk =>
    simp only [SemOp.exec, Semcb.tkTerTsk]
    by_cases hchk : chk ≠ E_OK
    · rw [if_pos hchk]
      exact same
    rw [if_neg hchk]
    by_cases ht : t ∈ s.sem.wait_queue
    · rw [if_pos ht, inv.sem.endWait t none]
      exact inv.terminated ht
    · rw [if_neg ht]
      exact same
  | chgPri t priority chk =>
    simp only [SemOp.exec, Semcb.tkChgPri, Semcb.changeTaskPriority]
    by_cases hchk : chk ≠ E_OK
    · rw [if_pos hchk]
      exact same
    rw [if_neg hchk]
    have hsem := inv.sem.others (Function.update s.sem.priority t priority) s.sem.waitmask
    by_cases ht : t ∈ s.sem.wait_queue ∧ s.sem.sematr &&& TA_TPRI ≠ 0
    · obtain ⟨hsem', e⟩ := hsem.semChgPri ht.1 (Int.natCast_nonneg (s.sem.priority t))
      rw [if_pos ht, e]
      exact inv.quiet hsem' rfl (fun _ => (gcbChangePriority_perm _ ht.1).mem_iff) rfl
    · rw [if_neg ht]
      exact inv.quiet hsem rfl (fun _ => Iff.rfl) rfl

/-! ## Runs -/

theorem FastLockInv.exec (inv : FastLockInv s) {op : FastLockOp} (legal : op.Legal s)
    (hop : op.Keeps s) :
    FastLockInv (op.exec s) := by
  cases op with
  | inc t => exact inv.inc legal hop
  | waiSem t ddsp =>
    obtain rfl : ddsp = false := hop
    exact inv.waiSem legal
  | dec t => exact inv.dec legal
  | sigSem t => exact inv.sigSem legal
  | kernel op => exact inv.kernel legal hop

theorem fastLockInv_create {prot : ER} {s₀ : Semcb} (h : createLock prot s₀ = .ok s) :
    FastLockInv s := by
  unfold createLock tkCreSem at h
  by_cases hprot : prot ≠ E_OK
  · simp [hprot, Except.map] at h
  · simp only [Bool.not_true, Bool.false_eq_true, if_false, if_neg hprot] at h
    rw [if_neg (by decide), if_neg (by decide), if_neg (by decide)] at h
    obtain rfl := Except.ok.inj h
    have huses : ¬LockPos.outside.Uses := by decide
    have hbears : ¬LockPos.outside.Bears := by decide
    have hcnt : (-1 : BitVec 32).toInt = ((0 : ℕ) : ℤ) + (0 : ℕ) - 1 := by decide
    have htok : ((0 : ℕ) : ℤ) + 0 = if (-1 : BitVec 32).toInt < 0 then 0 else 1 := by decide
    exact ⟨⟨rfl, rfl, le_rfl, List.nodup_nil, nofun, nofun, fun _ => rfl⟩, fun t =>
      iff_of_false List.not_mem_nil nofun, ⟨0, 0, count_zero fun _ => huses, hcnt⟩, 0,
      count_zero fun _ => hbears, htok⟩

theorem FastLockRun.inv (run : FastLockRun FastLockOp.Keeps s) : FastLockInv s := by
  induction run with
  | create h => exact fastLockInv_create h
  | step op _ legal h ih => exact ih.exec legal h

/-- **High-speed locks.** A lock keeps what it promises in every run in which no wait in `Lock` is
released by force or to begin where no task can wait, and `cnt` does not overflow, in whatever other
way the waits end. -/
theorem fastLockRun_right (run : FastLockRun FastLockOp.Keeps s) : FastLockRight s := run.inv.right

/-- A new lock. -/
def newLock : FastLock :=
  ⟨-1, ⟨[], TA_TPRI ||| TA_NODISWAI, 0, 1, fun _ => 1, fun _ => 0, fun _ => false, fun _ => 0⟩,
    fun _ => .outside⟩

theorem newLock_created (P : FastLock → FastLockOp → Prop) : FastLockRun P newLock := by
  have h : createLock E_OK newLock.sem = .ok newLock := rfl
  exact .create h

/-- The first task has the lock, the second one waits. -/
def contended : FastLock := ((newLock.inc 1).inc 2).waiSem 2 false

theorem contended_run {P : FastLock → FastLockOp → Prop} (h₁ : P newLock (.inc 1))
    (h₂ : P (newLock.inc 1) (.inc 2)) (h₃ : P ((newLock.inc 1).inc 2) (.waiSem 2 false)) :
    FastLockRun P contended := by
  have hwai : ((newLock.inc 1).inc 2).pos 2 = .waiSem := by decide
  have run₁ := (newLock_created P).step (.inc 1) rfl h₁
  have run₂ := run₁.step (.inc 2) rfl h₂
  exact run₂.step (.waiSem 2 false) hwai h₃

/-- The first task unlocks, and the second one has the lock. -/
theorem fastLockRun_right_handOver : FastLockRight ((contended.dec 1).sigSem 1) := by
  have h₁ : newLock.cnt.toInt ≠ 2 ^ 31 - 1 := by decide
  have h₂ : (newLock.inc 1).cnt.toInt ≠ 2 ^ 31 - 1 := by decide
  have hdec : contended.pos 1 = .locked := by decide
  have hsig : (contended.dec 1).pos 1 = .sigSem := by decide
  have run : FastLockRun FastLockOp.Keeps contended := contended_run h₁ h₂ rfl
  exact fastLockRun_right ((run.step (.dec 1) hdec trivial).step (.sigSem 1) hsig trivial)

/-- The wait of the second task is released by force. -/
def released : FastLock := contended.kernel (.relWai 2 E_OK)

/-- The second task calls `Lock` with dispatching disabled. -/
def entered : FastLock := ((newLock.inc 1).inc 2).waiSem 2 true

/-- `tk_rel_wai` lets the second task in while the first one has the lock, and so does the failure
of `tk_wai_sem`. -/
theorem fastLockRun_forced :
    (FastLockRun (fun _ _ => True) released ∧ released.pos 1 = .locked ∧ released.pos 2 = .locked ∧
      ¬FastLockRight released) ∧
    FastLockRun (fun _ _ => True) entered ∧ entered.pos 1 = .locked ∧ entered.pos 2 = .locked ∧
      ¬FastLockRight entered := by
  have both {s : FastLock} (h₁ : s.pos 1 = .locked) (h₂ : s.pos 2 = .locked) : ¬FastLockRight s :=
    fun h =>
    absurd (h.exclusive 1 2 h₁ h₂) (by decide)
  constructor
  · have h₁ : released.pos 1 = .locked := by decide
    have h₂ : released.pos 2 = .locked := by decide
    have run : FastLockRun (fun _ _ => True) contended := contended_run trivial trivial trivial
    exact ⟨run.step (.kernel (.relWai 2 E_OK)) trivial trivial, h₁, h₂, both h₁ h₂⟩
  · have h₁ : entered.pos 1 = .locked := by decide
    have h₂ : entered.pos 2 = .locked := by decide
    have hwai : ((newLock.inc 1).inc 2).pos 2 = .waiSem := by decide
    have run :=
      ((newLock_created fun _ _ => True).step (.inc 1) rfl trivial).step (.inc 2) rfl trivial
    exact ⟨run.step (.waiSem 2 true) hwai trivial, h₁, h₂, both h₁ h₂⟩

end SmpTKernel
