import SmpTKernel.KernelBoostMutex

/-!
# Priority inheritance and ceilings over the runs

In every state between two calls a task has the most urgent of its base priority, the ceilings it
holds, and the priorities of the first tasks that wait for its mutexes with inheritance, unless a
termination gave a priority to the task that ends, or a deletion gave one to the former holder
because of the deleted mutex.
-/

namespace SmpTKernel

open Kern Inherit

variable {s s' : Kern} {t u o : Tsk} {m id : ID} {h : Hook} {chk : ER} {p atr : ℕ}

/-- The priority of a task that is neither dormant nor non-existent. -/
def PriorityRight (s : Kern) (t : Tsk) : Prop :=
  IsLeast ({(s.tcb t).bpriority} ∪
    {p | ∃ m, s.mtxtsk m = some t ∧ s.IsCeiling m ∧ s.ceilpri m = p} ∪
    {p | ∃ m u, s.mtxtsk m = some t ∧ s.IsInherit m ∧ (s.queue (.mtx, m)).head? = some u ∧
      s.pri u = p}) (s.pri t)

def PrioritiesRight (s : Kern) : Prop := ∀ t, (s.tcb t).Alive → PriorityRight s t

/-- The deletion of a mutex does not give its holder a priority again because of a task that still
waits for it. -/
def KernOp.OneWay (s : Kern) : KernOp → Prop
  | .delMtx h id chk =>
    chk = E_OK → s.objatr (.mtx, id) ≠ none → ∀ t ∈ s.mtxtsk id,
      t ∈ (chainTasks h.served h.depth (s.releaseMutex t (some id))).tail →
        ∀ w ∈ chainTasks h.served h.depth (s.releaseMutex t (some id)), ¬s.WaitsMtx w id
  | _ => True

/-- The invariant gives the text of the property. -/
theorem MutexInv.priorityRight (inv : MutexInv none [] s) (hb : s.Boosted none [] none)
    (ha : (s.tcb t).Alive) :
    PriorityRight s t := by
  have ht : t ∈ s.present none := ⟨ha.1, Option.some_ne_none t⟩
  have hpri : s.pri t = s.resetPri t := (hb t ht).unique (inv.resetPri ht)
  have hheld : ∀ m, m ∈ (s.tcb t).mtxlist ↔ s.objatr (.mtx, m) ≠ none ∧ s.mtxtsk m = some t :=
    inv.ceil.mem_mtxlist ha
  have hleast := heldPri_isLeast s (s.tcb t).mtxlist (le_refl (s.tcb t).bpriority)
  unfold PriorityRight
  rw [hpri]
  unfold Kern.resetPri
  convert hleast using 1
  ext p
  rw [Set.union_assoc, Set.mem_union, Set.mem_singleton_iff, Set.mem_insert_iff]
  refine or_congr_right ?_
  constructor
  · rintro (⟨m, hm, hc, hp⟩ | ⟨m, u, hm, hi, hu, hp⟩)
    · refine ⟨m, (hheld m).mpr ⟨IsCeiling.registered hc, hm⟩, ?_⟩
      unfold mtxAsk
      rw [if_pos hc, hp]
    · refine ⟨m, (hheld m).mpr ⟨IsInherit.registered hi, hm⟩, ?_⟩
      unfold mtxAsk
      rw [if_neg (isInherit_not_ceiling hi), if_pos hi, hu, Option.map_some, hp]
  · rintro ⟨m, hm, hask⟩
    have hown := ((hheld m).mp hm).2
    unfold mtxAsk at hask
    split_ifs at hask with hc hi
    · exact .inl ⟨m, hown, hc, Option.some.inj hask⟩
    · obtain ⟨u, hu, hp⟩ := Option.map_eq_some_iff.mp hask
      exact .inr ⟨m, u, hown, hi, hu, hp⟩

/-! ## The calls -/

theorem chgPriMutex_eq {limited : ℕ} (hl : s.chgPriMutex t p = some limited) :
    s.heldPri (s.tcb t).mtxlist p p = limited := by
  change (if p < (s.chgPriHeld (s.tcb t).mtxlist p (s.awaitedPri t) p).2 then none
    else some (s.chgPriHeld (s.tcb t).mtxlist p (s.awaitedPri t) p).1) = some limited at hl
  split_ifs at hl
  rw [← chgPriHeld_fst]
  exact Option.some.inj hl

theorem resetPri_base (s : Kern) (t : Tsk) (p : ℕ) :
    (s.upd t fun c => { c with bpriority := p }).resetPri t = s.heldPri (s.tcb t).mtxlist p p := by
  unfold resetPri
  rw [upd_self]
  refine heldPri_congr fun m _ pri => ?_
  unfold mtxPri
  dsimp only [upd_objatr, upd_queue]
  cases s.queue (.mtx, m) with
  | nil => rfl
  | cons u us =>
    have hpri : ((s.upd t fun c => { c with bpriority := p }).tcb u).priority =
      (s.tcb u).priority := pri_upd rfl u
    dsimp only
    rw [hpri]
    rfl

theorem MutexInv.chgPri (inv : MutexInv none [] s) (hb : s.Boosted none [] none) (t : Tsk)
    (h : Hook) (tskpri : Option ℕ) (chk : ER)
    (hdone : (CeilOp.call (.chgPri t h tskpri chk)).Done s) :
    (s.chgPri t h tskpri chk).1.Boosted none [] none := by
  refine onTask_ind hb fun hn _ => ?_
  dsimp only
  split
  · exact hb
  · next limited hlimited =>
    have hdone := hdone limited hlimited
    generalize tskpri.getD (s.tcb t).ipriority = priority at hlimited hdone
    have hsteps : KernSteps True (none, s) (none, s.upd t fun c =>
        { c with bpriority := priority }) :=
      upd_steps t _ fun _ => rfl
    have inv' : MutexInv none [] (s.upd t fun c => { c with bpriority := priority }) :=
      ⟨inv.link.steps hsteps, inv.order.upd rfl,
        inv.ceil.base ((chgPriMutex_isSome s t priority).mp (by rw [hlimited]; rfl))⟩
    have hreset : (s.upd t fun c => { c with bpriority := priority }).resetPri t = limited := by
      rw [resetPri_base]
      exact chgPriMutex_eq hlimited
    have ht : t ∈ (s.upd t fun c => { c with bpriority := priority }).present none := by
      refine ⟨?_, Option.some_ne_none t⟩
      rw [upd_self]
      exact hn
    have hleast := inv'.resetPri ht
    rw [hreset] at hleast
    refine (inv'.chain_boosted (e := none) h.depth ht nofun ⟨fun u hu hut => ?_, hleast⟩ hdone
      fun _ _ => ⟨Option.some_ne_none _, nofun⟩).2
    refine (hb u ⟨?_, Option.some_ne_none u⟩).congr (funext (pri_upd rfl)) ?_ fun _ => Iff.rfl
    · have hn := hu.1
      rwa [upd_of_ne hut] at hn
    · unfold Kern.ownPri
      rw [upd_of_ne hut]
      rfl

theorem MutexInv.creMtx (inv : MutexInv none [] s) (hb : s.Boosted none [] none) (id : ID)
    (atr ceilpri : ℕ) (chk : ER) : (s.creMtx id atr ceilpri chk).1.Boosted none [] none := by
  refine checked_ind hb fun _ => ?_
  split_ifs with hfree
  · exact hb
  replace hfree := not_not.mp hfree
  have hobj {m : ID} (hm : m ≠ id) : Function.update s.objatr (.mtx, id) (some atr) (.mtx, m) =
      s.objatr (.mtx, m) :=
    Function.update_of_ne (fun e => hm (congrArg Prod.snd e)) _ _
  have hqueue {m : ID} (hm : m ≠ id) : (s.register .mtx id atr).queue (.mtx, m) =
      s.queue (.mtx, m) :=
    if_neg fun e => hm e.2
  intro u hu
  refine (hb u hu).congr rfl ?_ fun w => ?_
  · ext p
    unfold Kern.ownPri IsCeiling register
    refine or_congr_right (exists_congr fun m => and_congr_right fun hm => ?_)
    have hne : m ≠ id := fun e => by
      have ha : (s.tcb u).Alive := by
        refine ⟨hu.1, fun hd => ?_⟩
        rw [inv.ceil.dead u (fun ha => ha.2 hd) (.inl hd)] at hm
        cases hm
      exact ((inv.ceil.holds u ha nofun).held m hm).2 (e ▸ hfree)
    dsimp only
    rw [hobj hne, Function.update_of_ne hne]
  · unfold Follows IsInherit
    simp only [reduceCtorEq, or_false]
    refine exists_congr fun m => ?_
    by_cases hm : m = id
    · refine iff_of_false (fun h => ?_) fun h => IsInherit.registered h.2.1 (hm ▸ hfree)
      have howner : Function.update s.mtxtsk id none m = some u := h.2.2.2
      rw [hm, Function.update_self] at howner
      cases howner
    · rw [hqueue hm]
      unfold register
      dsimp only
      rw [hobj hm, Function.update_of_ne hm]

theorem follows_unowned (hid : s.mtxtsk id = none) :
    s.Follows [id] none u o ↔ s.Follows [] none u o := by
  unfold Follows
  simp only [reduceCtorEq, or_false, List.not_mem_nil, not_false_eq_true, true_and,
    List.mem_singleton]
  refine exists_congr fun m => and_congr_right fun _ => and_congr_right fun _ => ?_
  refine and_iff_right_of_imp fun hm he => ?_
  rw [he, hid] at hm
  cases hm

/-- The free mutex. -/
theorem MutexInv.takeMutex (inv : MutexInv none [] s) (hs : s.Awaited) (hb : s.Boosted none [] none)
    (runs : s.Runs t) (hatr : s.objatr (.mtx, id) = some atr) (hid : s.mtxtsk id = none)
    (hlimit : s.IsCeiling id → s.ceilpri id ≤ (s.tcb t).bpriority)
    (hdone : Done h (s.holdMutex t id, some (t, s.ceilpri id))) :
    (s.takeMutex t h id atr).Boosted none [] none := by
  have hreg : s.objatr (.mtx, id) ≠ none := by
    rw [hatr]
    nofun
  have hsteps : KernSteps True (none, s) (none, s.holdMutex t id) :=
    steps_one (.same (Same.holdMutex t id))
  have inv' : MutexInv none [] (s.holdMutex t id) :=
    ⟨inv.link.steps hsteps, OrderInv.steps (a := (none, s)) (b := (none, _)) inv.order
      inv.link hsteps, (inv.ceil.unowned hreg hid).hold runs.alive nofun runs.not_waitsMtx hlimit⟩
  have hempty : s.queue (.mtx, id) = [] := by
    by_contra hq
    exact hs id hq hid
  have hb' : s.Boosted none [id] none :=
    fun u hu => (hb u hu).congr rfl rfl fun w => follows_unowned hid
  have htake : s.takeMutex t h id atr = if s.IsCeiling id ∧ s.pri t > s.ceilpri id then
      (s.holdMutex t id).changeTaskPriority t h (s.ceilpri id) else s.holdMutex t id := by
    have hpri : ((s.holdMutex t id).tcb t).priority = s.pri t := congrFun (holdMutex_pri s t id) t
    have hceil : s.IsCeiling id ↔ atr &&& TA_CEILING = TA_CEILING := by
      unfold IsCeiling
      rw [hatr, Option.getD_some]
    unfold Kern.takeMutex
    dsimp only
    rw [hpri]
    exact if_congr (and_congr_left fun _ => hceil.symm) rfl rfl
  rw [htake]
  refine inv'.takes hb' List.not_mem_nil ⟨runs.ne_nonexist, Option.some_ne_none t⟩ runs.not_isWait
    (fun _ w hw => ?_) hdone
  rw [hempty] at hw
  cases hw

/-- The task that is about to wait, and the holder. -/
def Kern.awaits (s : Kern) (t : Tsk) (id : ID) (o : Tsk) : Option (Tsk × Tsk) :=
  if s.IsInherit id then some (t, o) else none

/-- The holder is raised to the priority of the task. -/
theorem MutexInv.raises (inv : MutexInv none [] s) (hb : s.Boosted none [] none)
    (hatr : s.objatr (.mtx, id) = some atr) (hid : s.mtxtsk id = some o) (hot : o ≠ t)
    (hdone : Done h (s, some (o, s.pri t))) :
    (s.raiseHolder t h o atr).Boosted none [] (s.awaits t id o) := by
  have hinherit : s.IsInherit id ↔ atr &&& TA_CEILING = TA_INHERIT := by
    unfold IsInherit
    rw [hatr, Option.getD_some]
  by_cases hi : s.IsInherit id
  · have ho : o ∈ s.present none := (inv.holder hi List.not_mem_nil hid).1
    have hfollows (w u : Tsk) : s.Follows [] (some (t, o)) w u ↔ s.Follows [] none w u ∨ w = t ∧
        u = o := by
      unfold Follows
      simp [eq_comm]
    have hother : ∀ u ∈ s.present none, u ≠ o →
        Level s.ownPri (s.Follows [] (some (t, o))) s.pri u := by
      intro u hu huo
      refine (hb u hu).congr rfl rfl fun w => ?_
      rw [hfollows]
      exact or_iff_left fun h => huo h.2
    have hmono : asks s.ownPri (s.Follows [] none) s.pri o ⊆
        asks s.ownPri (s.Follows [] (some (t, o))) s.pri o :=
      asks_mono subset_rfl fun w hw => (hfollows w o).mpr (.inl hw)
    have hnext {p : ℕ} (hp : p ≤ s.pri t) (w : Tsk) (hw : s.Follows [] (some (t, o)) w o) :
        s.Follows [] none w o ∨ p ≤ s.pri w := by
      refine ((hfollows w o).mp hw).imp_right ?_
      rintro ⟨rfl, -⟩
      exact hp
    unfold raiseHolder awaits
    rw [if_pos hi]
    split_ifs with hraise
    · refine (inv.chain_boosted h.depth ho (fun v u hvu => ?_) ⟨hother, ?_⟩ hdone
        fun _ _ => ⟨Option.some_ne_none _, nofun⟩).2
      · cases hvu
        exact ⟨rfl, hraise.2⟩
      · exact (hb o ho).least (.inr ⟨t, (hfollows t o).mpr (.inr ⟨rfl, rfl⟩), rfl⟩) hraise.2.le
          (fun _ => .inl)
          (hnext le_rfl)
    · intro u hu
      by_cases huo : u = o
      · subst huo
        have hle : s.pri u ≤ s.pri t := not_lt.mp fun hlt => hraise ⟨hinherit.mp hi, hlt⟩
        exact (hb u ho).least (hmono (hb u ho).1) le_rfl (fun _ => .inl) (hnext hle)
      · exact hother u hu huo
  · unfold raiseHolder awaits
    rw [if_neg hi, if_neg fun h => hi (hinherit.mpr h.1)]
    exact hb

/-- The task waits for the mutex. -/
theorem Boosted.enter (runs : s.Runs t) (hid : s.mtxtsk id = some o)
    (hb : s.Boosted none [] (s.awaits t id o)) (tmout : ℤ) :
    (s.gcbMakeWait t .mtx id atr tmout).Boosted none [] none := by
  have hself := gcbMakeWait_self s t .mtx id atr tmout
  have hother {u : Tsk} (hu : u ≠ t) : (s.gcbMakeWait t .mtx id atr tmout).tcb u = s.tcb u :=
    gcbMakeWait_of_ne hu ..
  have hpri : (s.gcbMakeWait t .mtx id atr tmout).pri = s.pri := by
    funext u
    unfold pri
    by_cases hu : u = t
    · rw [hu, hself]
      rfl
    · rw [hother hu]
  have hmem (m : ID) (w : Tsk) : w ∈ (s.gcbMakeWait t .mtx id atr tmout).queue (.mtx, m) ↔
      w ∈ s.queue (.mtx, m) ∨ w = t ∧ m = id := by
    unfold gcbMakeWait enqueue
    by_cases hm : m = id
    · subst hm
      rw [setQueue_self, (enqueue_perm _ _ _).mem_iff, List.mem_cons, or_comm]
      exact or_congr_right (and_iff_left rfl).symm
    · rw [setQueue_of_ne fun e => hm (congrArg Prod.snd e), or_iff_left fun h => hm h.2]
      rfl
  intro u hu
  refine (hb u ⟨?_, Option.some_ne_none u⟩).congr hpri ?_ fun w => ?_
  · by_cases hut : u = t
    · rw [hut]
      exact runs.ne_nonexist
    · have hn := hu.1
      rwa [hother hut] at hn
  · unfold Kern.ownPri
    by_cases hut : u = t
    · rw [hut, hself]
      rfl
    · rw [hother hut]
      rfl
  · -- the new wait is the one that the holder was raised for
    have hnew : (s.gcbMakeWait t .mtx id atr tmout).Follows [] none w u ↔
        s.Follows [] none w u ∨ w = t ∧ s.IsInherit id ∧ u = o := by
      unfold Follows
      simp only [hmem, reduceCtorEq, or_false, List.not_mem_nil, not_false_eq_true, true_and]
      constructor
      · rintro ⟨m, hw | ⟨rfl, rfl⟩, hi, hm⟩
        · exact .inl ⟨m, hw, hi, hm⟩
        · exact .inr ⟨rfl, hi, Option.some.inj (hm.symm.trans hid)⟩
      · rintro (⟨m, hw, hi, hm⟩ | ⟨rfl, hi, rfl⟩)
        · exact ⟨m, .inl hw, hi, hm⟩
        · exact ⟨id, .inr ⟨rfl, rfl⟩, hi, hid⟩
    rw [hnew]
    unfold Follows awaits
    by_cases hi : s.IsInherit id
    · simp [hi, eq_comm]
    · simp [hi]

theorem MutexInv.locMtx (inv : MutexInv none [] s) (hs : s.Awaited) (hb : s.Boosted none [] none)
    (runs : s.Runs t) (h : Hook) (id : ID) (tmout : ℤ) (chk : ER)
    (hdone : (CeilOp.call (.locMtx t h id tmout chk)).Done s) :
    (s.locMtx t h id tmout chk).1.Boosted none [] none := by
  refine onObj_ind hb fun atr hatr => ?_
  split
  · exact hb
  next hown =>
  split
  · exact hb
  next hbase =>
  split
  · exact hb
  · split
    · next hid =>
      refine inv.takeMutex hs hb runs hatr hid (fun hc => not_lt.mp fun hlt => hbase ⟨?_, hlt⟩)
        (hdone.1 hid)
      unfold IsCeiling at hc
      rwa [hatr, Option.getD_some] at hc
    · next o hid =>
      split_ifs
      · exact hb
      · have hot : o ≠ t := fun e => hown (e ▸ hid)
        have hraise := inv.raises hb hatr hid hot (hdone.2 o hid)
        have hcalm : Calm t s (s.raiseHolder t h o atr) := by
          unfold raiseHolder
          split_ifs
          · exact .chain h.served h.depth (s, some (o, (s.tcb t).priority))
          · exact .refl t s
        have hkeeps : MtxKeeps s (s.raiseHolder t h o atr) := .raiseHolder ..
        refine Boosted.enter (o := o) (inv.link.calm runs hcalm).1 (by rw [hkeeps.mtxtsk, hid]) ?_
          tmout
        have hawaits : (s.raiseHolder t h o atr).awaits t id o = s.awaits t id o := by
          unfold awaits
          exact if_congr hkeeps.isInherit rfl rfl
        rw [hawaits]
        exact hraise

theorem MutexInv.unlMtx (inv : MutexInv none [] s) (hb : s.Boosted none [] none) (runs : s.Runs t)
    (h : Hook) (id : ID) (chk : ER) (hdone : (CeilOp.call (.unlMtx t h id chk)).Done s) :
    (s.unlMtx t h id chk).1.Boosted none [] none := by
  refine onObj_ind hb fun atr hatr => ?_
  split_ifs with hid
  · exact hb
  · have hreg : s.objatr (.mtx, id) ≠ none := by
      rw [hatr]
      nofun
    have htail : (chainTasks h.served h.depth (s.releaseMutex t (some id))).tail = [] := by
      have hidle : ((s.releaseMutex t (some id)).1.tcb t).state.isWait = false := by
        unfold releaseMutex
        dsimp only
        rw [upd_self]
        exact runs.not_isWait
      rw [releaseMutex_eq]
      split_ifs
      · exact chainTasks_idle _ _ _ hidle
      · cases h.depth <;> rfl
    obtain ⟨inv', hb'⟩ := inv.givesUp hb hreg (not_not.mp hid) hdone.1 (clear_of_tail htail)
    exact Boosted.pass hb' inv' hdone.2

theorem MutexInv.delMtx (inv : MutexInv none [] s) (hb : s.Boosted none [] none) (h : Hook)
    (id : ID) (chk : ER) (oneWay : (KernOp.delMtx h id chk).OneWay s)
    (hdone : (CeilOp.call (.delMtx h id chk)).Done s) :
    (s.delMtx h id chk).1.Boosted none [] none := by
  refine checked_ind hb fun hchk => ?_
  split
  · exact hb
  next atr hatr =>
  have hreg : s.objatr (.mtx, id) ≠ none := by
    rw [hatr]
    nofun
  split
  · next hid =>
    have inv' : MutexInv none [id] s := ⟨inv.link, inv.order, inv.ceil.unowned hreg hid⟩
    exact Boosted.deleted (fun u hu => (hb u hu).congr rfl rfl fun w => follows_unowned hid) inv'
  · next o hid =>
    have hclear : s.Clear none [id] (chainTasks h.served h.depth (s.releaseMutex o (some id))) := by
      refine fun u hu => ⟨Option.some_ne_none u, fun m hm ho w hw => ?_⟩
      obtain rfl := List.mem_singleton.mp hm
      obtain rfl := Option.some.inj (hid.symm.trans ho)
      exact oneWay hchk hreg o hid hu w hw
    obtain ⟨inv', hb'⟩ := inv.givesUp hb hreg hid (hdone hreg o hid) hclear
    exact Boosted.deleted hb' inv'

theorem Boosted.makeDormant (hb : s.Boosted (some t) [] none) (inv : MutexInv (some t) [] s) :
    (s.makeDormant t).Boosted none [] none := by
  unfold Kern.makeDormant
  exact Boosted.ended hb inv fun _ => ⟨rfl, rfl⟩

/-- A task that does not wait and is not in execution can as well be away. -/
theorem LinkInv.gone (link : LinkInv True (none, s)) (hd : ¬(s.tcb t).Alive) :
    LinkInv True (some t, s) := by
  have hactive (u : Tsk) : Active (some t, s) u ↔ Active (none, s) u := by
    refine ⟨fun hu => ⟨hu.1, Option.some_ne_none u⟩, fun hu => ⟨hu.1, ?_⟩⟩
    rintro ⟨⟩
    exact hd (alive_of_isWait hu.1)
  refine link.still rfl rfl (fun u hu => ⟨(hactive u).mpr hu, rfl, rfl⟩) (fun u hu =>
    .inl ((hactive u).mp hu))
    (fun u hu => (hactive u).mpr (link.timed u hu)) fun hg u => ?_
  rw [link.ready hg u]
  refine and_congr_right fun hu => iff_of_true (Option.some_ne_none u) ?_
  rintro ⟨⟩
  refine hd ⟨?_, ?_⟩ <;> rw [hu] <;> decide

theorem MutexInv.gone (inv : MutexInv none [] s) (hd : ¬(s.tcb t).Alive) : MutexInv (some t) [] s :=
  ⟨inv.link.gone hd, inv.order, inv.ceil.gone hd⟩

theorem Boosted.gone (hb : s.Boosted none [] none) : s.Boosted (some t) [] none :=
  Balanced.mono hb fun u hu => ⟨hu.1, Option.some_ne_none u⟩

theorem MutexInv.creTsk (inv : MutexInv none [] s) (hb : s.Boosted none [] none) (t : Tsk)
    (ipriority : ℕ) (chk : ER) :
    (s.creTsk t ipriority chk).1.Boosted none [] none := by
  refine checked_ind hb fun _ => ?_
  split_ifs with hn
  · exact hb
  · dsimp only
    rw [Kern.makeDormant, upd_upd]
    exact Boosted.ended (Boosted.gone hb) (inv.gone fun ha => ha.1 (not_not.mp hn)) fun _ =>
      ⟨rfl, rfl⟩

theorem MutexInv.delTsk (inv : MutexInv none [] s) (hb : s.Boosted none [] none) (t : Tsk)
    (chk : ER) :
    (s.delTsk t chk).1.Boosted none [] none := by
  refine onTask_ind hb fun _ _ => ?_
  split_ifs with hd
  · exact hb
  · exact Boosted.ended (f := fun c => { c with state := .nonexist }) (Boosted.gone hb)
      (inv.gone fun ha => ha.2 (not_not.mp hd)) fun hn => absurd rfl hn

theorem Boosted.staTsk (hb : s.Boosted none [] none) (t : Tsk) (chk : ER) :
    (s.staTsk t chk).1.Boosted none [] none := by
  refine onTask_ind hb fun hn _ => ?_
  split_ifs
  · exact hb
  · have hpri : (s.makeReady t).pri = s.pri :=
      (Steady.upd t (fun c => { c with state := .ready, ready := true }) rfl).pri
    intro u hu
    refine (hb u ⟨?_, Option.some_ne_none u⟩).congr hpri ?_ fun _ => Iff.rfl
    · by_cases hut : u = t
      · rw [hut]
        exact hn
      · have hstate := hu.1
        rwa [note_tcb, makeReady, upd_of_ne hut] at hstate
    · unfold Kern.ownPri
      rw [note_tcb, makeReady, upd_tcb]
      split_ifs with hut
      · rw [hut]
        rfl
      · rfl

theorem MutexInv.disWai (inv : MutexInv none [] s) (hb : s.Boosted none [] none) (t : Tsk)
    (h : Hook) (waitmask : ℕ) (chk : ER) (hdone : (CeilOp.call (.disWai t h waitmask chk)).Done s) :
    (s.disWai t h waitmask chk).1.Boosted none [] none := by
  refine onTask_ind hb fun _ _ => ?_
  have k : MtxKeeps s (s.upd t fun c => { c with waitmask := waitmask }) :=
    .upd t _ ⟨rfl, rfl, rfl, rfl, rfl⟩
  have hmask := Boosted.steady hb inv.link k (.upd t _ rfl)
  have inv' : MutexInv none [] (s.upd t fun c => { c with waitmask := waitmask }) :=
    ⟨inv.link.held ⟨rfl, rfl, rfl, rfl, id⟩, inv.order.upd rfl, inv.ceil.keeps_none k⟩
  dsimp only
  split_ifs with hw
  · exact inv'.releaseNg hmask hw hdone
  · exact hmask
  · exact hmask

theorem MutexInv.exec_boosted (inv : MutexInv none [] s) (hs : s.Awaited)
    (hb : s.Boosted none [] none) {op : KernOp} (runs : ∀ t ∈ op.caller, s.Runs t)
    (fits : op.Fits s) (straight : op.Straight s) (oneWay : op.OneWay s)
    (hdone : (CeilOp.call op).Done s) : (op.exec s).1.Boosted none [] none := by
  by_cases hop : op.changesNoPriority
  · have hmtx : op.leavesMutexes := by
      cases op <;> first | exact hop | rfl
    exact Boosted.steady hb inv.link (.exec inv.link.weaken runs fits hmtx)
      (.exec inv.link fits hop)
  have hruns {t : Tsk} {h : Hook} (runs : s.Runs t) : StraightEnd s t h := fun hw => by
    rw [runs.not_isWait] at hw
    cases hw
  cases op with
  | relWai t h chk =>
    refine onTask_ind hb fun _ _ => ?_
    split_ifs with hw
    · exact inv.releaseNg hb hw hdone
    · exact hb
  | disWai t h waitmask chk => exact inv.disWai hb t h waitmask chk hdone
  | timeout t h => exact inv.releaseNg hb (inv.link.timed t fits).1 hdone
  | creTsk t ipriority chk => exact inv.creTsk hb t ipriority chk
  | delTsk t chk => exact inv.delTsk hb t chk
  | staTsk t chk => exact Boosted.staTsk hb t chk
  | extTsk t h =>
    obtain ⟨inv', hb'⟩ := inv.terTask hb (runs t rfl).alive (hruns (runs t rfl)) hdone
    exact Boosted.makeDormant hb' inv'
  | exdTsk t h =>
    obtain ⟨inv', hb'⟩ := inv.terTask hb (runs t rfl).alive (hruns (runs t rfl)) hdone
    exact Boosted.ended (f := fun c => { c with state := .nonexist }) hb' inv' fun hn =>
      absurd rfl hn
  | terTsk t h chk =>
    refine checked_ind hb fun hchk => ?_
    split_ifs with h₁ h₂
    · exact hb
    · exact hb
    · have ha : (s.tcb t).Alive := ⟨h₁, fun hd => h₂ ⟨hd, by decide⟩⟩
      obtain ⟨inv', hb'⟩ := inv.terTask hb ha (straight hchk) (hdone ha)
      exact Boosted.makeDormant hb' inv'
  | chgPri t h tskpri chk => exact inv.chgPri hb t h tskpri chk hdone
  | creMtx id atr ceilpri chk => exact inv.creMtx hb id atr ceilpri chk
  | delMtx h id chk => exact inv.delMtx hb h id chk oneWay hdone
  | locMtx t h id tmout chk => exact inv.locMtx hs hb (runs t rfl) h id tmout chk hdone
  | unlMtx t h id chk => exact inv.unlMtx hb (runs t rfl) h id chk hdone
  | _ => exact absurd rfl hop

/-! ## Runs -/

theorem KernRun.mono {ok ok' : Kern → KernOp → Prop} (run : KernRun ok s)
    (hok : ∀ s op, ok s op → ok' s op) :
    KernRun ok' s := by
  induction run with
  | init s initial => exact .init s initial
  | step run op runs fits h ih => exact ih.step op runs fits (hok _ op h)

/-- No call gives a priority to a task that ends or, through a mutex that is deleted, to its holder,
and every change of priority is carried to its end. -/
def KernOp.Carried (s : Kern) (op : KernOp) : Prop :=
  op.Straight s ∧ op.OneWay s ∧ (CeilOp.call op).Done s

theorem KernRun.boosted (run : KernRun (fun s op => op.Carried s) s) :
    MutexInv none [] s ∧ s.Boosted none [] none := by
  have hinv {s : Kern} (run : KernRun (fun s op => op.Carried s) s) : MutexInv none [] s ∧
      s.Awaited := by
    have hstraight : KernRun (fun s op => op.Straight s) s := run.mono fun _ _ h => h.1
    obtain ⟨link, ceil, hs⟩ := hstraight.mutexes
    exact ⟨⟨link, hstraight.order, ceil⟩, hs⟩
  refine ⟨(hinv run).1, ?_⟩
  induction run with
  | init s initial => exact fun t ht => absurd (initial.state t) ht.1
  | @step s run op runs fits hok ih =>
    obtain ⟨inv, hs⟩ := hinv run
    exact inv.exec_boosted hs ih runs fits hok.1 hok.2.1 hok.2.2

theorem KernRun.few {ok : Kern → KernOp → Prop} (run : KernRun ok s) : s.Few := by
  induction run with
  | init s initial => exact ⟨∅, fun t _ => initial.state t⟩
  | @step s run op runs fits hok ih =>
    have link : LinkInv False (none, s) := run.link fun h => h.elim
    have hsteps : KernSteps False (none, s) (none, (op.exec s).1) := link.exec_steps runs fits nofun
    exact KernSteps.few ih hsteps

/-- Every task has the most urgent of what its base priority, its ceilings and the waiting tasks ask
for, and the changes of priority of the next call come to an end. -/
theorem kernRun_priorities (run : KernRun (fun s op => op.Carried s) s) :
    PrioritiesRight s ∧ ∀ op : KernOp, (∀ t ∈ op.caller, s.Runs t) →
      ∃ n, ∀ d, n ≤ d → ((CeilOp.call op).deep d).Done s := by
  obtain ⟨inv, hb⟩ := run.boosted
  exact ⟨fun t ha => inv.priorityRight hb ha, fun op _ => run.few.done (.call op)⟩

instance (s : Kern) (t : Tsk) (m : ID) : Decidable (s.WaitsMtx t m) :=
  inferInstanceAs (Decidable (_ ∧ _))

instance (h : Hook) (r : Kern × Option (Tsk × ℕ)) : Decidable (Kern.Done h r) :=
  inferInstanceAs (Decidable (_ = _))

instance (s : Kern) (t : Tsk) (h : Hook) : Decidable (s.RelWaiDone t h) :=
  inferInstanceAs (Decidable (_ → _))

instance (s : Kern) (t : Tsk) (h : Hook) : Decidable (s.ReleaseDone t h) :=
  inferInstanceAs (Decidable (RelWaiDone _ t h))

instance (s : Kern) (h : Hook) (m : ID) : Decidable (s.PassDone h m) := by
  unfold PassDone
  cases s.queue (.mtx, m) <;> infer_instance

instance instDecidableSignalDone (h : Hook) : (ms : List ID) → (s : Kern) →
    Decidable (SignalDone h ms s)
  | [], _ => isTrue trivial
  | m :: ms, s =>
    have := instDecidableSignalDone h ms (s.passMutex h m)
    inferInstanceAs (Decidable (_ ∧ _))

instance (s : Kern) (t : Tsk) (h : Hook) : Decidable (s.TerDone t h) :=
  inferInstanceAs (Decidable (_ ∧ _))

instance (c : TaskCB) : Decidable c.Alive := inferInstanceAs (Decidable (_ ∧ _))

instance (s : Kern) : (op : KernOp) → Decidable (op.OneWay s ∧ (CeilOp.call op).Done s)
  | .extTsk t h | .exdTsk t h => inferInstanceAs (Decidable (True ∧ s.TerDone t h))
  | .terTsk t h _ => inferInstanceAs (Decidable (True ∧ ((s.tcb t).Alive → s.TerDone t h)))
  | .relWai t h _ | .timeout t h => inferInstanceAs (Decidable (True ∧ s.ReleaseDone t h))
  | .chgPri .. | .acpPor .. => inferInstanceAs (Decidable (True ∧ ∀ _ ∈ _, _))
  | .disWai .. => inferInstanceAs (Decidable (True ∧ Kern.ReleaseDone _ _ _))
  | .fwdPor .. | .locMtx .. | .unlMtx .. => inferInstanceAs (Decidable (True ∧ _ ∧ _))
  | .delMtx .. => inferInstanceAs (Decidable ((_ → _ → ∀ _ ∈ _, _ → ∀ _ ∈ _, _) ∧ (_ → ∀ _ ∈ _, _)))
  | .creTsk .. | .delTsk .. | .staTsk .. | .enaWai .. | .svcMask .. | .susTsk .. | .rsmTsk ..
  | .frsmTsk .. | .slpTsk .. | .wupTsk .. | .canWup .. | .waiTev .. | .sigTev .. | .dlyTsk ..
  | .creObj .. | .creMtx .. | .delObj .. | .waiSem .. | .waiFlg .. | .rcvMbx .. | .getMpf ..
  | .getMpl .. | .sigSem .. | .setFlg .. | .sndMbx .. | .relMpf .. | .relMpl ..
  | .sndMbf .. | .rcvMbf .. | .calPor .. | .rplRdv .. => inferInstanceAs (Decidable (True ∧ True))

instance (s : Kern) (op : KernOp) : Decidable (op.Carried s) :=
  inferInstanceAs (Decidable (_ ∧ _ ∧ _))

/-- Task 3 waits for the mutex of task 2, and task 2 for the mutex of task 1. -/
def boostRun : List KernOp :=
  [.creTsk 1 30 0, .creTsk 2 20 0, .creTsk 3 5 0, .creMtx 1 TA_INHERIT 0 0,
    .creMtx 2 TA_INHERIT 0 0, .staTsk 1 0, .staTsk 2 0, .staTsk 3 0, .locMtx 1 ⟨0, 9⟩ 1 TMO_FEVR 0,
    .locMtx 2 ⟨0, 9⟩ 2 TMO_FEVR 0, .locMtx 2 ⟨0, 9⟩ 1 TMO_FEVR 0, .locMtx 3 ⟨0, 9⟩ 2 1 0]

theorem kernRun_priorities_boost :
    PrioritiesRight (execAll boostRun boot) ∧ (execAll boostRun boot).pri 1 = 5 := by
  have run : KernRun (fun s op => op.Carried s) (execAll boostRun boot) :=
    (KernRun.init boot boot_initial).all (by decide +kernel)
  exact ⟨(kernRun_priorities run).1, by decide +kernel⟩

/-- Task 1 holds mutex 1, which the tasks 2 and 3 wait for, and waits for mutex 2, which task 2
holds. -/
def crossedRun : List KernOp :=
  [.creTsk 1 20 0, .creTsk 2 10 0, .creTsk 3 5 0, .creMtx 1 TA_INHERIT 0 0,
    .creMtx 2 TA_INHERIT 0 0, .staTsk 1 0, .staTsk 2 0, .staTsk 3 0, .locMtx 1 ⟨0, 9⟩ 1 TMO_FEVR 0,
    .locMtx 2 ⟨0, 9⟩ 2 TMO_FEVR 0, .locMtx 2 ⟨0, 9⟩ 1 TMO_FEVR 0, .locMtx 3 ⟨0, 9⟩ 1 TMO_FEVR 0,
    .locMtx 1 ⟨0, 9⟩ 2 TMO_FEVR 0]

/-- Mutex 1 is deleted, and task 1 keeps the priority 10 of task 2, which waited for it. -/
theorem kernRun_priorities_wrong : ¬∀ s, KernRun (fun s op => (CeilOp.call op).Done s) s →
    PrioritiesRight s := by
  intro h
  have crossed : KernRun (fun s op => op.Carried s) (execAll crossedRun boot) :=
    (KernRun.init boot boot_initial).all (by decide +kernel)
  have hdone : (CeilOp.call (.delMtx ⟨0, 9⟩ 1 0)).Done (execAll crossedRun boot) := by
    show _ → ∀ _ ∈ _, _
    decide +kernel
  have run := (crossed.mono fun _ _ hop => hop.2.2).step (.delMtx ⟨0, 9⟩ 1 0) nofun trivial hdone
  have straight :=
    (crossed.mono fun _ _ hop => hop.1).step (.delMtx ⟨0, 9⟩ 1 0) nofun trivial trivial
  have ha : (((KernOp.delMtx ⟨0, 9⟩ 1 0).exec (execAll crossedRun boot)).1.tcb 1).Alive := by
    decide +kernel
  have hfree : (((KernOp.delMtx ⟨0, 9⟩ 1 0).exec (execAll crossedRun boot)).1.tcb 1).mtxlist =
    [] := by decide +kernel
  have hnone (m : ID) := (straight.mutexes.2.1.mem_mtxlist ha m).not.mp (hfree ▸ List.not_mem_nil)
  rcases (h _ run 1 ha).1 with (hb | ⟨m, hm, hc, -⟩) | ⟨m, u, hm, hi, -⟩
  · exact absurd hb (by decide +kernel)
  · exact hnone m ⟨IsCeiling.registered hc, hm⟩
  · exact hnone m ⟨IsInherit.registered hi, hm⟩

/-! ## Chains of waiting tasks -/

open Relation

/-- The task `w` waits for a mutex with inheritance that `u` holds. -/
def Kern.BlockedBy (s : Kern) (w u : Tsk) : Prop :=
  ∃ m, s.WaitsMtx w m ∧ s.IsInherit m ∧ s.mtxtsk m = some u

theorem LinkInv.blockedBy (link : LinkInv True (none, s)) : s.BlockedBy = s.Follows [] none := by
  funext w u
  unfold Kern.BlockedBy Kern.Follows
  simp only [reduceCtorEq, or_false, List.not_mem_nil, not_false_eq_true, true_and]
  refine propext (exists_congr fun m => and_congr_left fun _ => ⟨link.mem_of_waits, fun hw => ?_⟩)
  obtain ⟨hactive, hqueue⟩ := link.waits w _ (.inl trivial) hw
  exact ⟨hactive.1, hqueue⟩

theorem blockedBy_alive {w : Tsk} (hw : s.BlockedBy w u) : (s.tcb w).Alive := by
  obtain ⟨m, hw, -⟩ := hw
  exact alive_of_isWait hw.1

/-- Priorities are inherited along chains of any length: a task that no circle of waiting tasks
leads to has the most urgent base priority or ceiling of all the tasks that wait for it, for one of
those, and so on; it is never less urgent than any of these, and the tasks of a circle have one
priority. -/
theorem kernRun_chains (run : KernRun (fun s op => op.Carried s) s) (ha : (s.tcb t).Alive) :
    ((∀ w, ReflTransGen s.BlockedBy w t → ¬TransGen s.BlockedBy w w) →
      IsLeast {p | ∃ w, ReflTransGen s.BlockedBy w t ∧ p ∈ s.ownPri w} (s.pri t)) ∧
    ∀ w, ReflTransGen s.BlockedBy w t →
      s.pri t ≤ s.pri w ∧ (ReflTransGen s.BlockedBy t w → s.pri w = s.pri t) := by
  obtain ⟨inv, hb⟩ := run.boosted
  obtain ⟨F, hF⟩ := run.few
  have hbal : Balanced s.ownPri s.BlockedBy s.pri (s.present none) := by
    rw [inv.link.blockedBy]
    exact hb
  have hS : ∀ v ∈ s.present none, ∀ w, s.BlockedBy w v → w ∈ s.present none := fun v _ w hw =>
    ⟨(blockedBy_alive hw).1, Option.some_ne_none w⟩
  have ht : t ∈ s.present none := ⟨ha.1, Option.some_ne_none t⟩
  have hfinite : ∀ w u, s.BlockedBy w u → w ∈ F := fun w u hw => by
    by_contra hout
    exact (blockedBy_alive hw).1 (hF w hout)
  exact ⟨fun hback => hbal.chain_least hS (acc_of_acyclic hfinite hback) ht,
    fun w hw => ⟨hbal.chain_le hS ht hw, hbal.circle hS ht hw⟩⟩

/-- Tasks 1 and 2 wait for each other, and task 3 for task 2 until its time is over. -/
def circleRun : List KernOp := boostRun ++ [.locMtx 1 ⟨0, 9⟩ 2 TMO_FEVR 0]

theorem kernRun_chains_circle :
    (execAll circleRun boot).pri 1 = (execAll circleRun boot).pri 2 := by
  have run : KernRun (fun s op => op.Carried s) (execAll circleRun boot) :=
    (KernRun.init boot boot_initial).all (by decide +kernel)
  have h₁ : (execAll circleRun boot).BlockedBy 1 2 := ⟨2, by decide +kernel⟩
  have h₂ : (execAll circleRun boot).BlockedBy 2 1 := ⟨1, by decide +kernel⟩
  exact ((kernRun_chains run (t := 2) (by decide +kernel)).2 1 (.single h₁)).2 (.single h₂)

end SmpTKernel
