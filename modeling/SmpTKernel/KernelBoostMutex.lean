import SmpTKernel.KernelBoostCalls

/-!
# Priorities while mutexes are given up

A wait that ends, a task that ends, and a mutex that goes to another task: which priorities are
still what they are to be, and which one is computed again.
-/

namespace SmpTKernel

open Kern Inherit

variable {s s' : Kern} {t u w : Tsk} {m id : ID} {x : Option Tsk} {l : List ID} {h : Hook} {p : ℕ}

theorem LinkInv.weaken (link : LinkInv True (x, s)) : LinkInv False (x, s) :=
  ⟨link.linked, fun t q _ => link.waits t q (.inl trivial), fun q _ => link.nodup q (.inl trivial),
    link.registered, link.timed, fun hg => hg.elim⟩

/-- A change of the priority of a task that does not wait is the only one. -/
theorem chainTasks_idle (served depth p : ℕ) (ht : (s.tcb t).state.isWait = false) :
    (chainTasks served depth (s, some (t, p))).tail = [] := by
  have hnone : (s.changePriority t served p).2 = none := by
    unfold changePriority
    rw [if_neg]
    simpa using ht
  rcases depth with _ | _ | depth
  · rfl
  · rfl
  · unfold chainTasks
    dsimp only
    unfold chainTasks
    rw [hnone]
    rfl

theorem clear_of_tail {tasks : List Tsk} (h : tasks.tail = []) : s.Clear x l tasks := by
  intro u hu
  rw [h] at hu
  cases hu

theorem MutexInv.chain_idle {e : Option (Tsk × Tsk)} (inv : MutexInv x l s) (ht : t ∈ s.present x)
    (he : ∀ v u, e = some (v, u) → s.pri v = p ∧ p < s.pri t) (hb : s.Boosting x l e t p)
    (hidle : (s.tcb t).state.isWait = false) (hdone : Done h (s, some (t, p))) :
    (s.changeTaskPriority t h p).Boosted x l e :=
  (inv.chain_boosted h.depth ht he hb hdone (clear_of_tail (chainTasks_idle _ _ _ hidle))).2

/-! ## A wait ends -/

theorem Boosted.leave (hb : s.Boosted none [] none) (k : MtxKeeps s s') (hpri : s'.pri = s.pri)
    (hqueue : ∀ m w, w ∈ s'.queue (.mtx, m) ↔ w ∈ s.queue (.mtx, m) ∧ w ≠ t)
    (hsub : s'.present x ⊆ s.present none) (hl : ∀ m ∈ l, ∀ u ∈ s'.present x, s.mtxtsk m ≠ some u)
    (hu : u ∈ s'.present x) (hold : s.Follows [] none t u → s.pri u ≠ s.pri t) :
    Level s'.ownPri (s'.Follows l none) s'.pri u := by
  rw [k.ownPri, hpri]
  refine (hb u (hsub hu)).leave (fun w => ?_) hold
  unfold Follows
  simp only [hqueue, k.isInherit, k.mtxtsk, reduceCtorEq, or_false, List.not_mem_nil,
    not_false_eq_true, true_and]
  constructor
  · rintro ⟨m, ⟨hw, hne⟩, hi, -, hm⟩
    exact ⟨⟨m, hw, hi, hm⟩, hne⟩
  · rintro ⟨⟨m, hw, hi, hm⟩, hne⟩
    exact ⟨m, ⟨hw, hne⟩, hi, fun hml => hl m hml u hu hm, hm⟩

/-- The hook of a wait for a mutex: the holder computes its priority again if it had that of the
task. -/
theorem MutexInv.relWai (inv : MutexInv x l s)
    (hlevel : ∀ u ∈ s.present x, (s.mtxtsk (s.tcb t).wid = some u → s.pri u ≠ s.pri t) →
      Level s.ownPri (s.Follows l none) s.pri u)
    (hu : ∀ u, s.mtxtsk (s.tcb t).wid = some u → u ∈ s.present x) (hdone : Done h (s.mtxRelWai t))
    (hclear : s.Clear x l (chainTasks h.served h.depth (s.mtxRelWai t))) :
    (chain h.served h.depth (s.mtxRelWai t)).Boosted x l none := by
  cases hm : s.mtxtsk (s.tcb t).wid with
  | none =>
    have hdef : s.mtxRelWai t = (s, none) := by
      unfold mtxRelWai
      rw [hm]
    rw [hdef, chain_none]
    intro v hv
    exact hlevel v hv fun hv' => by cases hm.symm.trans hv'
  | some u =>
    have hdef : s.mtxRelWai t = if s.pri u = s.pri t then
        (s, if s.resetPri u ≠ s.pri u then some (u, s.resetPri u) else none) else (s, none) := by
      rw [← releaseMutex_none_eq]
      unfold mtxRelWai
      rw [hm]
      rfl
    have hother {v : Tsk} (hv : v ∈ s.present x) (hvu : v ≠ u) :
        Level s.ownPri (s.Follows l none) s.pri v :=
      hlevel v hv fun hv' => absurd (Option.some.inj (hv'.symm.trans hm)) hvu
    rw [hdef] at hdone hclear ⊢
    by_cases hpri : s.pri u = s.pri t
    · rw [if_pos hpri] at hdone hclear ⊢
      have hboosting : s.Boosting x l none u (s.resetPri u) :=
        ⟨fun v => hother, inv.resetPri (hu u hm)⟩
      by_cases hne : s.resetPri u ≠ s.pri u
      · rw [if_pos hne] at hdone hclear ⊢
        exact (inv.chain_boosted (e := none) h.depth (hu u hm) nofun hboosting hdone hclear).2
      · rw [if_neg hne, chain_none]
        exact hboosting.balanced (not_not.mp hne).symm
    · rw [if_neg hpri, chain_none]
      intro v hv
      by_cases hvu : v = u
      · subst hvu
        exact hlevel v hv fun _ => hpri
      · exact hother hv hvu

/-- The hook of a wait for a mutex, also where the mutex has no inheritance. -/
theorem MutexInv.relWaiHook (inv : MutexInv x l s) (hk : (s.tcb t).wspec.kind = some .mtx)
    (hinherit : (s.tcb t).wspec = .mtxInherit ↔ s.IsInherit (s.tcb t).wid)
    (hwid : (s.tcb t).wid ∉ l) (hlevel : ∀ u ∈ s.present x,
      (s.IsInherit (s.tcb t).wid → s.mtxtsk (s.tcb t).wid = some u → s.pri u ≠ s.pri t) →
      Level s.ownPri (s.Follows l none) s.pri u) (hdone : s.RelWaiDone t h)
    (hclear : s.Clear x l (s.hookTasks t h)) :
    (s.relWaiHook t h).Boosted x l none := by
  by_cases hspec : (s.tcb t).wspec = .mtxInherit
  · have hi := hinherit.mp hspec
    have hdef : s.relWaiHook t h = chain h.served h.depth (s.mtxRelWai t) := by
      unfold Kern.relWaiHook
      rw [hspec]
    unfold hookTasks at hclear
    rw [if_pos hspec] at hclear
    rw [hdef]
    refine inv.relWai (fun u hu hne => hlevel u hu fun _ => hne) (fun u hu =>
      (inv.holder hi hwid hu).1)
      (hdone hspec) hclear
  · have hdef : s.relWaiHook t h = s := by
      unfold Kern.relWaiHook
      cases hw : (s.tcb t).wspec with
      | que k tpri =>
        rw [hw] at hk
        obtain rfl : k = .mtx := Option.some.inj hk
        rfl
      | mtxInherit => exact absurd hw hspec
      | _ => rfl
    rw [hdef]
    exact fun u hu => hlevel u hu fun hi => absurd (hinherit.mpr hi) hspec

theorem MutexInv.follows_wid (inv : MutexInv x l s) (hf : s.Follows l none t u) :
    s.IsInherit (s.tcb t).wid ∧ s.mtxtsk (s.tcb t).wid = some u := by
  rcases hf with ⟨m, ht, hi, -, hu⟩ | hf
  · have hwid : (s.tcb t).wid = m := (waitQueue_eq (inv.link.waits t _ (.inl trivial) ht).2).2
    rw [hwid]
    exact ⟨hi, hu⟩
  · cases hf

theorem MutexInv.releaseNg (inv : MutexInv none [] s) (hb : s.Boosted none [] none)
    (hw : (s.tcb t).state.isWait) (hdone : s.ReleaseDone t h) :
    (s.waitReleaseNg t h).Boosted none [] none := by
  by_cases hk : (s.tcb t).wspec.kind = some .mtx
  · have k : MtxKeeps s (s.waitRelease t) := .release (.inr hw)
    have inv' : MutexInv none [] (s.waitRelease t) :=
      inv.keeps k (steps_one (.release t (.inr ⟨hw, Option.some_ne_none t⟩)))
    have hself : (s.waitRelease t).tcb t = (s.tcb t).released := waitRelease_self
    have hspec : ((s.waitRelease t).tcb t).wspec = (s.tcb t).wspec ∧
        ((s.waitRelease t).tcb t).wid = (s.tcb t).wid := by
      rw [hself, TaskCB.released]
      split_ifs <;> exact ⟨rfl, rfl⟩
    have hpri := waitRelease_pri s t
    have ht := inv.link.mem_of_waits (waitsMtx_of_wspec hw hk)
    refine MutexInv.relWaiHook (s := s.waitRelease t) inv' (by rw [hspec.1]; exact hk) ?_
      List.not_mem_nil
      (fun u hu hne => ?_) hdone fun _ _ => ⟨Option.some_ne_none _, fun m hm =>
        absurd hm List.not_mem_nil⟩
    · rw [hspec.1, hspec.2, k.isInherit]
      exact inv.link.inherit_iff ht
    · refine Boosted.leave (t := t) hb k hpri (fun m w => ?_) (k.present inv.link) (fun _ hf => by
        cases hf) hu fun hf => ?_
      · rw [waitRelease_queue, (inv.link.nodup _ (.inl trivial)).mem_erase_iff, and_comm]
      · obtain ⟨hi, hm⟩ := inv.follows_wid hf
        rw [hspec.2, k.isInherit, k.mtxtsk, hpri] at hne
        exact hne hi hm
  · exact Boosted.steady hb inv.link (.releaseNg h hw) (.releaseNg inv.link.apart
      (inv.link.not_mem_kind hk) hk h)

/-! ## A task ends -/

/-- The task that is away is in no queue, and its mutexes go to others. -/
theorem Boosted.away (inv : MutexInv none [] s) (hb : s.Boosted none [] none) (k : MtxKeeps s s')
    (hpri : s'.pri = s.pri) (hqueue : ∀ m w, w ∈ s'.queue (.mtx, m) ↔ w ∈ s.queue (.mtx, m) ∧ w ≠ t)
    (ha : (s.tcb t).Alive) (hu : u ∈ s'.present (some t))
    (hold : s.Follows [] none t u → s.pri u ≠ s.pri t) :
    Level s'.ownPri (s'.Follows (s.tcb t).mtxlist none) s'.pri u := by
  refine Boosted.leave (x := some t) hb k hpri hqueue (fun v hv => ?_)
    (fun m hm v hv he => ?_) hu hold
  · exact k.present inv.link ⟨hv.1, Option.some_ne_none v⟩
  · rw [((inv.ceil.mem_mtxlist ha m).mp hm).2] at he
    exact hv.2 he.symm

theorem MutexInv.terLeave (inv : MutexInv none [] s) (hb : s.Boosted none [] none)
    (ha : (s.tcb t).Alive) (straight : StraightEnd s t h)
    (hdone : (s.tcb t).state.isWait → (s.waitCancel t).RelWaiDone t h) :
    MutexInv (some t) ((s.terLeave t h).tcb t).mtxlist (s.terLeave t h) ∧
      (s.terLeave t h).Boosted (some t) ((s.terLeave t h).tcb t).mtxlist none := by
  have hsteps : KernSteps True (none, s) (some t, s.terLeave t h) :=
    terLeave_steps t h ha.1 ha.2 fun _ => straight
  refine ⟨⟨inv.link.steps hsteps, OrderInv.steps (a := (none, s)) (b := (some t, _)) inv.order
    inv.link hsteps, inv.ceil.terLeave inv.link.weaken h ha⟩, ?_⟩
  rw [(MtxKeeps.terLeave t h).mtxlist]
  have hidle {s' : Kern} (hq : ∀ m, t ∉ s.queue (.mtx, m)) (k : MtxKeeps s s')
      (hpri : s'.pri = s.pri) (hqueue : s'.queue = s.queue) :
      s'.Boosted (some t) (s.tcb t).mtxlist none := by
    intro u hu
    refine Boosted.away inv hb k hpri (fun m w => ?_) ha hu ?_
    · rw [hqueue]
      exact ⟨fun hw => ⟨hw, fun e => hq m (e ▸ hw)⟩, And.left⟩
    · rintro (⟨m, ht, -⟩ | he)
      · exact absurd ht (hq m)
      · cases he
  unfold Kern.terLeave
  split_ifs with hr hw
  · exact hidle (fun m => inv.ceil.not_mem_runs (.inl hr))
      (.upd t (fun c => { c with ready := false }) ⟨rfl, rfl, rfl, rfl, rfl⟩)
      (funext (pri_upd rfl)) rfl
  · have k : MtxKeeps s (s.waitCancel t) := .cancel t
    have hself : (s.waitCancel t).tcb t = { s.tcb t with timed := false } := by
      rw [waitCancel, queRemove_tcb, upd_self]
    have hpri : (s.waitCancel t).pri = s.pri :=
      (Steady.upd t (fun c => { c with timed := false }) rfl).pri
    have hqueue (m : ID) (w : Tsk) : w ∈ (s.waitCancel t).queue (.mtx, m) ↔ w ∈ s.queue (.mtx, m) ∧
        w ≠ t := by
      rw [and_comm]
      exact (inv.link.nodup _ (.inl trivial)).mem_erase_iff
    have inv' : MutexInv (some t) (s.tcb t).mtxlist (s.waitCancel t) := by
      refine ⟨inv.link.cancel hw, inv.order.waitCancel t, ?_⟩
      have hleave := (inv.ceil.keeps_none k).leave (t := t) (by rw [hself]; exact ha)
        fun m hm => ((hqueue m t).mp hm).2 rfl
      rwa [hself] at hleave
    by_cases hk : (s.tcb t).wspec.kind = some .mtx
    · have hwaits := waitsMtx_of_wspec hw hk
      refine MutexInv.relWaiHook (s := s.waitCancel t) inv' (by rw [hself]; exact hk) ?_
        (fun hm => ?_)
        (fun u hu hne => ?_) (hdone hw) fun u hu => ?_
      · rw [hself, k.isInherit]
        exact inv.link.inherit_iff (inv.link.mem_of_waits hwaits)
      · rw [hself, inv.ceil.mem_mtxlist ha] at hm
        exact inv.ceil.other t _ hwaits hm.2
      · refine Boosted.away inv hb k hpri hqueue ha hu fun hf => ?_
        obtain ⟨hi, hm⟩ := inv.follows_wid hf
        rw [hself, k.isInherit, k.mtxtsk, hpri] at hne
        exact hne hi hm
      · have hut : u ≠ t := by
          rintro rfl
          exact straight hw (List.mem_of_mem_tail hu)
        refine ⟨fun e => hut (Option.some.inj e), fun m hm hown => absurd ?_ hut⟩
        exact Option.some.inj (hown.symm.trans ((inv.ceil.mem_mtxlist ha m).mp hm).2)
    · have hb' : (s.waitCancel t).Boosted (some t) (s.tcb t).mtxlist none := by
        intro u hu
        refine Boosted.away inv hb k hpri hqueue ha hu ?_
        rintro (⟨m, ht, -⟩ | he)
        · exact absurd ht (inv.link.not_mem_kind hk m)
        · cases he
      exact Boosted.steady hb' inv'.link (.relWaiHook t h)
        (.relWaiHook inv'.link.apart (by rw [hself]; exact hk) h)
  · exact hidle (fun m => inv.ceil.not_mem_runs (.inr (suspend_of_alive hr hw ha)))
      (.refl s) rfl rfl

/-! ## A mutex goes to another task -/

/-- A task leaves the queue of a mutex that goes to another task. -/
theorem Boosted.release (hb : s.Boosted x l none) (link : LinkInv True (x, s)) (hm : m ∈ l)
    (ht : t ∈ s.queue (.mtx, m)) : (s.waitRelease t).Boosted x l none := by
  have k : MtxKeeps s (s.waitRelease t) := .release (.inl ⟨_, ht⟩)
  have hfollows : (s.waitRelease t).Follows l none = s.Follows l none := by
    funext w u
    unfold Follows
    simp only [waitRelease_queue, k.isInherit, k.mtxtsk]
    refine propext (or_congr_left (exists_congr fun m' => and_congr_left fun ⟨_, hl, _⟩ => ?_))
    have hne : m' ≠ m := fun e => hl (e ▸ hm)
    rw [List.erase_of_not_mem (link.not_mem_other ht hne)]
  unfold Boosted
  rw [k.ownPri, waitRelease_pri, hfollows]
  exact Balanced.mono hb (k.present link)

theorem holdMutex_ownPri (s : Kern) (t : Tsk) (m : ID) (u : Tsk) :
    (s.holdMutex t m).ownPri u = s.ownPri u ∪ {p | u = t ∧ s.IsCeiling m ∧ s.ceilpri m = p} := by
  have hceil (m' : ID) : (s.holdMutex t m).IsCeiling m' ↔ s.IsCeiling m' := Iff.rfl
  have hceilpri : (s.holdMutex t m).ceilpri = s.ceilpri := rfl
  ext p
  unfold Kern.ownPri
  simp only [Set.mem_ofPred_eq, Set.mem_union, hceil, hceilpri]
  by_cases hu : u = t
  · subst hu
    have hself : (s.holdMutex u m).tcb u = { s.tcb u with mtxlist := m :: (s.tcb u).mtxlist } :=
      upd_self
    rw [hself]
    simp only [List.mem_cons, exists_eq_or_imp, true_and]
    rw [or_assoc, or_comm (a := s.IsCeiling m ∧ _)]
  · have hother : (s.holdMutex t m).tcb u = s.tcb u := upd_of_ne hu
    rw [hother]
    simp [hu]

theorem holdMutex_follows (hm : m ∉ l) : (s.holdMutex t m).Follows l none w u ↔
    s.Follows (m :: l) none w u ∨ u = t ∧ s.IsInherit m ∧ w ∈ s.queue (.mtx, m) := by
  have hmtxtsk (m' : ID) : (s.holdMutex t m).mtxtsk m' = if m' = m then some t else s.mtxtsk m' :=
    Function.update_apply ..
  unfold Follows
  simp only [reduceCtorEq, or_false, hmtxtsk, List.mem_cons, not_or]
  constructor
  · rintro ⟨m', hw, hi, hl, hu⟩
    split_ifs at hu with he
    · subst he
      exact .inr ⟨(Option.some.inj hu).symm, hi, hw⟩
    · exact .inl ⟨m', hw, hi, ⟨he, hl⟩, hu⟩
  · rintro (⟨m', hw, hi, ⟨he, hl⟩, hu⟩ | ⟨rfl, hi, hw⟩)
    · exact ⟨m', hw, hi, hl, by rw [if_neg he, hu]⟩
    · exact ⟨m, hw, hi, hm, if_pos rfl⟩

/-- The task gets the mutex, and the priority that the ceiling asks for. -/
theorem MutexInv.takes (inv : MutexInv x l (s.holdMutex t m)) (hb : s.Boosted x (m :: l) none)
    (hm : m ∉ l) (ht : t ∈ s.present x) (hidle : (s.tcb t).state.isWait = false)
    (hfirst : s.IsInherit m → ∀ w ∈ s.queue (.mtx, m), s.pri t ≤ s.pri w)
    (hdone : Done h (s.holdMutex t m, some (t, s.ceilpri m))) :
    (if s.IsCeiling m ∧ s.pri t > s.ceilpri m then (s.holdMutex t m).changeTaskPriority t h
      (s.ceilpri m)
      else s.holdMutex t m).Boosted x l none := by
  have hpri : (s.holdMutex t m).pri = s.pri := funext (pri_upd rfl)
  have hstate (u : Tsk) : ((s.holdMutex t m).tcb u).state = (s.tcb u).state := by
    by_cases hu : u = t
    · subst hu
      rw [Kern.holdMutex, upd_self]
    · rw [Kern.holdMutex, upd_of_ne hu]
  have hpresent : (s.holdMutex t m).present x = s.present x := by
    unfold present
    simp only [hstate]
  have hother : ∀ u ∈ (s.holdMutex t m).present x, u ≠ t →
      Level (s.holdMutex t m).ownPri ((s.holdMutex t m).Follows l none)
      (s.holdMutex t m).pri u := by
    intro u hu hut
    refine (hb u (hpresent ▸ hu)).congr hpri ?_ fun w => ?_
    · simp [holdMutex_ownPri, hut]
    · simp [holdMutex_follows hm, hut]
  have hself := hb t ht
  have hmono : asks s.ownPri (s.Follows (m :: l) none) s.pri t ⊆
      asks (s.holdMutex t m).ownPri ((s.holdMutex t m).Follows l none) s.pri t :=
    asks_mono (by rw [holdMutex_ownPri]; exact Set.subset_union_left)
      fun w hw => (holdMutex_follows hm).mpr (.inl hw)
  split_ifs with hc
  · refine inv.chain_idle (e := none) (hpresent ▸ ht) (fun _ _ hf => by
      cases hf) ⟨hother, ?_⟩ (by rw [hstate]; exact hidle) hdone
    rw [hpri]
    refine hself.least (.inl ?_) hc.2.le (fun q hq => ?_) fun w hw => ?_
    · rw [holdMutex_ownPri]
      exact .inr ⟨rfl, hc.1, rfl⟩
    · rw [holdMutex_ownPri] at hq
      exact hq.imp_right fun hq => hq.2.2.le
    · refine ((holdMutex_follows hm).mp hw).imp_right fun hw =>
        absurd hc.1 (isInherit_not_ceiling hw.2.1)
  · intro u hu
    by_cases hut : u = t
    · subst hut
      unfold Level
      rw [hpri]
      refine hself.least (hmono hself.1) le_rfl (fun q hq => ?_) fun w hw => ?_
      · rw [holdMutex_ownPri] at hq
        refine hq.imp_right ?_
        rintro ⟨-, hceil, rfl⟩
        exact not_lt.mp fun hlt => hc ⟨hceil, hlt⟩
      · exact ((holdMutex_follows hm).mp hw).imp_right fun hw => hfirst hw.2.1 w hw.2.2
    · exact hother u hu hut

theorem holdMutex_pri (s : Kern) (t : Tsk) (m : ID) : (s.holdMutex t m).pri = s.pri :=
  funext (pri_upd rfl)

theorem passMutex_cons {us : List Tsk} (hq : s.queue (.mtx, m) = u :: us) : s.passMutex h m =
    if (s.waitRelease u).IsCeiling m ∧ (s.waitRelease u).pri u > (s.waitRelease u).ceilpri m then
      ((s.waitRelease u).holdMutex u m).changeTaskPriority u h ((s.waitRelease u).ceilpri m)
    else (s.waitRelease u).holdMutex u m := by
  have hpri : (((s.waitRelease u).holdMutex u m).tcb u).priority = (s.waitRelease u).pri u :=
    congrFun (holdMutex_pri (s.waitRelease u) u m) u
  unfold passMutex
  rw [hq]
  dsimp only
  rw [hpri]
  rfl

theorem MutexInv.pass (inv : MutexInv x (m :: l) s) (h : Hook) :
    MutexInv x l (s.passMutex h m) where
  link := inv.link.steps (passMutex_steps h m)
  order :=
    OrderInv.steps (a := (x, s)) (b := (x, s.passMutex h m)) inv.order inv.link
      (passMutex_steps h m)
  ceil := inv.ceil.pass h

/-- The first task of the queue gets the mutex. -/
theorem Boosted.pass (hb : s.Boosted x (m :: l) none) (inv : MutexInv x (m :: l) s)
    (hdone : s.PassDone h m) :
    (s.passMutex h m).Boosted x l none := by
  have hml : m ∉ l := (List.nodup_cons.mp inv.ceil.pending.1).1
  cases hq : s.queue (.mtx, m) with
  | nil =>
    have hdrop : s.passMutex h m = { s with mtxtsk := Function.update s.mtxtsk m none } := by
      unfold passMutex
      rw [hq]
    have hfollows : (s.passMutex h m).Follows l none = s.Follows (m :: l) none := by
      funext w u
      rw [hdrop]
      unfold Follows
      simp only [reduceCtorEq, or_false]
      refine propext (exists_congr fun m' => ?_)
      by_cases hm : m' = m
      · subst hm
        exact iff_of_false (fun hw => List.not_mem_nil (hq ▸ hw.1)) fun hw =>
          List.not_mem_nil (hq ▸ hw.1)
      · rw [List.mem_cons, or_iff_right hm, Function.update_of_ne hm]
        exact Iff.rfl
    unfold Boosted
    rw [hfollows, hdrop]
    exact hb
  | cons u us =>
    have hu : u ∈ s.queue (.mtx, m) := hq ▸ List.mem_cons_self
    have k : MtxKeeps s (s.waitRelease u) := .release (.inl ⟨_, hu⟩)
    have hx := (inv.link.waits u _ (.inl trivial) hu).1.2
    have halive : ((s.waitRelease u).tcb u).Alive := by
      rw [waitRelease_self]
      exact released_alive _
    have hidle : ((s.waitRelease u).tcb u).state.isWait = false := by
      rw [waitRelease_self, isWait_released]
    have hsteps : KernSteps True (x, s) (x, s.waitRelease u) :=
      steps_one (.release u (.inl ⟨_, hu⟩))
    have inv' := inv.keeps k hsteps
    have hhold : MutexInv x l ((s.waitRelease u).holdMutex u m) := by
      have hsame : KernSteps True (x, s.waitRelease u) (x, (s.waitRelease u).holdMutex u m) :=
        steps_one (.same (Same.holdMutex u m))
      refine ⟨inv'.link.steps hsame, OrderInv.steps (a := (x, _)) (b := (x, _)) inv'.order
        inv'.link hsame, inv'.ceil.hold halive hx.symm (fun hw => ?_) fun hc => ?_⟩
      · have hwait := hw.1
        rw [hidle] at hwait
        cases hwait
      · rw [k.isCeiling] at hc
        rw [k.ceilpri, k.bpriority]
        exact inv.ceil.waits u m ((inv.ceil.linked u m hu).resolve_right fun h => h.2 hc) hc
    unfold PassDone at hdone
    rw [hq] at hdone
    rw [passMutex_cons hq]
    refine hhold.takes (Boosted.release hb inv.link List.mem_cons_self hu) hml ⟨halive.1, hx⟩ hidle
      (fun hi w hw => ?_)
      (by rw [k.ceilpri]; exact hdone)
    rw [waitRelease_pri]
    exact inv.head_le (k.isInherit.mp hi) hq (waitRelease_sub s u _ hw)

theorem Boosted.signal (hb : s.Boosted x l none) (inv : MutexInv x l s) (hdone : SignalDone h l s) :
    MutexInv x [] (l.foldl (fun s m => s.passMutex h m) s) ∧
      (l.foldl (fun s m => s.passMutex h m) s).Boosted x [] none := by
  induction l generalizing s with
  | nil => exact ⟨inv, hb⟩
  | cons m l ih => exact ih (Boosted.pass hb inv hdone.1) (inv.pass h) hdone.2

theorem MutexInv.terTask (inv : MutexInv none [] s) (hb : s.Boosted none [] none)
    (ha : (s.tcb t).Alive) (straight : StraightEnd s t h) (hdone : s.TerDone t h) :
    MutexInv (some t) [] (s.terTask t h) ∧ (s.terTask t h).Boosted (some t) [] none := by
  obtain ⟨inv', hb'⟩ := inv.terLeave hb ha straight hdone.1
  exact Boosted.signal hb' inv' hdone.2

/-- The task is there no more, or has the priority that `make_dormant` gives it. -/
theorem Boosted.ended (hb : s.Boosted (some t) [] none) (inv : MutexInv (some t) [] s)
    {f : TaskCB → TaskCB} (hf : (f (s.tcb t)).state ≠ .nonexist → (f (s.tcb t)).mtxlist = [] ∧
      (f (s.tcb t)).priority = (f (s.tcb t)).bpriority) : (s.upd t f).Boosted none [] none := by
  have hpri : (s.upd t f).pri = Function.update s.pri t (f (s.tcb t)).priority := by
    funext u
    unfold pri
    rw [upd_tcb, Function.update_apply]
    split_ifs <;> rfl
  have hown (u : Tsk) (hu : u ≠ t) : (s.upd t f).ownPri u = s.ownPri u := by
    unfold Kern.ownPri
    rw [upd_of_ne hu]
    rfl
  intro u hu
  unfold Level
  by_cases hut : u = t
  · -- nobody follows the task, which holds nothing
    subst hut
    have hn := hu.1
    rw [upd_self] at hn
    obtain ⟨hnil, hbase⟩ := hf hn
    have hasks : asks (s.upd u f).ownPri ((s.upd u f).Follows [] none) (s.upd u f).pri u =
        {(f (s.tcb u)).bpriority} := by
      ext p
      unfold asks Kern.ownPri
      rw [upd_self, hnil]
      simp only [List.not_mem_nil, false_and, exists_false, or_false, Set.mem_union,
        Set.mem_ofPred_eq, Set.mem_singleton_iff, or_iff_left_iff_imp]
      rintro ⟨w, ⟨m, hw, hi, hl, hm⟩ | he, -⟩
      · exact absurd rfl (inv.holder hi hl hm).1.2
      · cases he
    rw [hasks, hpri, Function.update_self, hbase]
    exact isLeast_singleton
  · have hx : u ∈ s.present (some t) := by
      refine ⟨?_, fun e => hut (Option.some.inj e)⟩
      have hn := hu.1
      rwa [upd_of_ne hut] at hn
    have hnot : ¬s.Follows [] none t u := by
      rintro (⟨m, ht, -⟩ | he)
      · exact (inv.link.waits t _ (.inl trivial) ht).1.2 rfl
      · cases he
    have hlevel := (hb u hx).apart (p := (f (s.tcb t)).priority) hut hnot
    unfold Level at hlevel
    rw [hpri, asks_congr (hown u hut) (fun w => Iff.rfl) fun _ _ => rfl]
    exact hlevel

/-! ## A mutex is given up -/

theorem releaseMutex_eq (s : Kern) (t : Tsk) (r : Option ID) :
    s.releaseMutex t r = ((s.releaseMutex t r).1,
      if (s.releaseMutex t r).1.resetPri t ≠ (s.releaseMutex t r).1.pri t then
        some (t, (s.releaseMutex t r).1.resetPri t) else none) := rfl

/-- The holder gives the mutex up: its priority is computed again, and so on. -/
theorem MutexInv.givesUp (inv : MutexInv none [] s) (hb : s.Boosted none [] none)
    (hreg : s.objatr (.mtx, id) ≠ none) (hid : s.mtxtsk id = some t)
    (hdone : Done h (s.releaseMutex t (some id)))
    (hclear : s.Clear none [id] (chainTasks h.served h.depth (s.releaseMutex t (some id)))) :
    MutexInv none [id] (chain h.served h.depth (s.releaseMutex t (some id))) ∧
      (chain h.served h.depth (s.releaseMutex t (some id))).Boosted none [id] none := by
  obtain ⟨⟨ha, -⟩, -⟩ := (inv.ceil.owner t id hreg hid).resolve_left List.not_mem_nil
  have hsteps : KernSteps True (none, s) (none, (s.releaseMutex t (some id)).1) :=
    releaseMutex_steps ..
  have inv' : MutexInv none [id] (s.releaseMutex t (some id)).1 :=
    ⟨inv.link.steps hsteps, OrderInv.steps (a := (none, s)) (b := (none, _)) inv.order
      inv.link hsteps, inv.ceil.released hreg hid⟩
  have hother (u : Tsk) (hu : u ≠ t) : (s.releaseMutex t (some id)).1.tcb u = s.tcb u :=
    Function.update_of_ne hu _ _
  have htcb (u : Tsk) : (s.releaseMutex t (some id)).1.pri u = s.pri u ∧
      ((s.releaseMutex t (some id)).1.tcb u).state = (s.tcb u).state ∧
      (s.releaseMutex t (some id)).1.waitQueue u = s.waitQueue u := by
    have hself : (s.releaseMutex t (some id)).1.tcb t =
        { s.tcb t with mtxlist := (s.tcb t).mtxlist.filter fun m => some m ≠ some id } :=
          Function.update_self ..
    unfold pri waitQueue
    by_cases hu : u = t
    · rw [hu, hself]
      exact ⟨rfl, rfl, rfl⟩
    · rw [hother u hu]
      exact ⟨rfl, rfl, rfl⟩
  have hpri : (s.releaseMutex t (some id)).1.pri = s.pri := funext fun u => (htcb u).1
  have ht : t ∈ (s.releaseMutex t (some id)).1.present none := by
    refine ⟨?_, Option.some_ne_none t⟩
    rw [(htcb t).2.1]
    exact ha.1
  have hboosting : (s.releaseMutex t (some id)).1.Boosting none [id] none t
      ((s.releaseMutex t (some id)).1.resetPri t) := by
    refine ⟨fun u hu hut => ?_, inv'.resetPri ht⟩
    refine (hb u ⟨(htcb u).2.1 ▸ hu.1, Option.some_ne_none u⟩).congr hpri ?_ fun w => ?_
    · unfold Kern.ownPri
      rw [hother u hut]
      rfl
    · unfold Follows
      simp only [reduceCtorEq, or_false, List.not_mem_nil, not_false_eq_true, true_and,
        List.mem_singleton]
      refine exists_congr fun m => and_congr_right fun _ => and_congr_right fun _ => ?_
      refine and_iff_right_of_imp fun hm hid' => hut ?_
      have hm' : s.mtxtsk m = some u := hm
      rw [hid', hid] at hm'
      exact (Option.some.inj hm').symm
  rw [releaseMutex_eq] at hdone hclear ⊢
  split_ifs at hdone hclear ⊢ with hne
  · refine inv'.chain_boosted (e := none) h.depth ht nofun hboosting hdone fun u hu => ?_
    refine ⟨(hclear u hu).1, fun m hm ho w hw hwait => (hclear u hu).2 m hm ho w hw ?_⟩
    unfold WaitsMtx at hwait ⊢
    rwa [(htcb w).2.1, (htcb w).2.2] at hwait
  · rw [chain_none]
    exact ⟨inv', hboosting.balanced (not_not.mp hne).symm⟩

/-- The waiting tasks are released, and the control block is returned. -/
theorem Boosted.deleted (hb : s.Boosted none [id] none) (inv : MutexInv none [id] s) :
    (s.deleted .mtx id).Boosted none [] none := by
  have hwakeup : ∀ (n : ℕ) {s : Kern}, MutexInv none [id] s → s.Boosted none [id] none →
      MutexInv none [id] (wakeup (.mtx, id) n s) ∧
      (wakeup (.mtx, id) n s).Boosted none [id] none := by
    intro n
    induction n with
    | zero => exact fun inv hb => ⟨inv, hb⟩
    | succ n ih =>
      intro s inv hb
      unfold wakeup
      split
      · exact ⟨inv, hb⟩
      · next u us hq =>
        have hu : u ∈ s.queue (.mtx, id) := hq ▸ List.mem_cons_self
        exact ih (inv.keeps (.release (.inl ⟨_, hu⟩)) (steps_one (.release u (.inl ⟨_, hu⟩))))
          (Boosted.release hb inv.link List.mem_cons_self hu)
  obtain ⟨inv', hb'⟩ := hwakeup (s.queue (.mtx, id)).length inv hb
  have hdef : s.deleted .mtx id = (wakeup (.mtx, id) (s.queue (.mtx, id)).length s).unregister
    .mtx id := rfl
  rw [hdef]
  generalize wakeup (.mtx, id) (s.queue (.mtx, id)).length s = s' at inv' hb'
  have hobj {m : ID} (hm : m ≠ id) : (s'.unregister .mtx id).objatr (.mtx, m) =
      s'.objatr (.mtx, m) :=
    Function.update_of_ne (fun e => hm (congrArg Prod.snd e)) _ _
  intro u hu
  refine (hb' u hu).congr rfl ?_ fun w => ?_
  · ext p
    unfold Kern.ownPri
    refine or_congr_right (exists_congr fun m => and_congr_right fun hm => ?_)
    have hne : m ≠ id := fun e => (inv'.holds hu hm).1 (List.mem_singleton.mpr e)
    unfold IsCeiling
    rw [hobj hne]
    rfl
  · unfold Follows
    simp only [reduceCtorEq, or_false, List.not_mem_nil, not_false_eq_true, true_and,
      List.mem_singleton]
    refine exists_congr fun m => and_congr_right fun _ => ?_
    by_cases hm : m = id
    · subst hm
      refine iff_of_false (fun h => IsInherit.registered h.1 (Function.update_self ..)) fun h =>
        h.2.1 rfl
    · unfold IsInherit
      rw [hobj hm, and_iff_right hm]
      rfl

end SmpTKernel
