import SmpTKernel.KernelMutex
import SmpTKernel.KernelChainRuns
import SmpTKernel.KernelOrder
import SmpTKernel.Lib.Inherit

/-!
# The priority that a task is to have

A task follows the holder of the mutex with inheritance that it waits for. The priority of a task is
to be the least of its base priority, of the ceilings it holds, and of the priorities of those that
follow it. A change of one priority is passed on by the hooks until this is so again.
-/

namespace SmpTKernel

open Kern Inherit

variable {s s' : Kern} {t u w : Tsk} {m id : ID} {q : QueueId} {x : Option Tsk} {l : List ID}
  {e : Option (Tsk × Tsk)} {p p' served : ℕ}

namespace Kern

/-- The base priority and the ceilings. -/
def ownPri (s : Kern) (t : Tsk) : Set ℕ :=
  {p | p = (s.tcb t).bpriority ∨ ∃ m ∈ (s.tcb t).mtxlist, s.IsCeiling m ∧ s.ceilpri m = p}

/-- The task `w` waits for a mutex with inheritance of `u`. The mutexes `l` go to another task, and
`e` are a task that is about to wait and the holder. -/
def Follows (l : List ID) (e : Option (Tsk × Tsk)) (s : Kern) (w u : Tsk) : Prop :=
  (∃ m, w ∈ s.queue (.mtx, m) ∧ s.IsInherit m ∧ m ∉ l ∧ s.mtxtsk m = some u) ∨ e = some (w, u)

/-- The tasks that are there; `x` is away. -/
def present (x : Option Tsk) (s : Kern) : Set Tsk := {t | (s.tcb t).state ≠ .nonexist ∧ some t ≠ x}

/-- Every priority is what it is to be. -/
def Boosted (x : Option Tsk) (l : List ID) (e : Option (Tsk × Tsk)) (s : Kern) : Prop :=
  Balanced s.ownPri (s.Follows l e) s.pri (s.present x)

/-- The task `t` is to get the priority `p`, and the others have theirs. -/
def Boosting (x : Option Tsk) (l : List ID) (e : Option (Tsk × Tsk)) (s : Kern) (t : Tsk) (p : ℕ) :
    Prop :=
  Inherit.Pending s.ownPri (s.Follows l e) s.pri (s.present x) t p

instance (s : Kern) (m : ID) : Decidable (s.IsCeiling m) := inferInstanceAs (Decidable (_ = _))

instance (s : Kern) (m : ID) : Decidable (s.IsInherit m) := inferInstanceAs (Decidable (_ = _))

/-- What the mutex asks its holder for. -/
def mtxAsk (s : Kern) (m : ID) : Option ℕ :=
  if s.IsCeiling m then some (s.ceilpri m)
  else if s.IsInherit m then (s.queue (.mtx, m)).head?.map s.pri else none

end Kern

/-- The invariants of the queues and the mutexes together. -/
structure MutexInv (x : Option Tsk) (l : List ID) (s : Kern) : Prop where
  link : LinkInv True (x, s)
  order : OrderInv s
  ceil : CeilInv x l s

theorem MutexInv.keeps (inv : MutexInv x l s) (k : MtxKeeps s s')
    (hsteps : KernSteps True (x, s) (x, s')) :
    MutexInv x l s' where
  link := inv.link.steps hsteps
  order := OrderInv.steps (a := (x, s)) (b := (x, s')) inv.order inv.link hsteps
  ceil := inv.ceil.keeps k fun t m hx ht => by
    have hactive := ((inv.link.steps hsteps).waits t _ (.inl trivial) ht).1
    exact absurd hx.symm hactive.2

/-! ## The loops over the held mutexes -/

theorem mtxPri_eq (s : Kern) (m : ID) (pri : ℕ) : s.mtxPri m pri = (s.mtxAsk m).getD pri := by
  have hdef : s.mtxPri m pri = if s.IsCeiling m then s.ceilpri m else if s.IsInherit m then
      ((s.queue (.mtx, m)).head?.map s.pri).getD pri else pri := by
    unfold mtxPri
    cases s.queue (.mtx, m) <;> rfl
  rw [hdef]
  unfold mtxAsk
  split_ifs <;> rfl

theorem heldPri_isLeast (s : Kern) (ms : List ID) {newpri pri : ℕ} (hle : newpri ≤ pri) :
    IsLeast (insert newpri {p | ∃ m ∈ ms, s.mtxAsk m = some p}) (s.heldPri ms newpri pri) := by
  induction ms generalizing newpri pri with
  | nil =>
    unfold heldPri
    simp
  | cons m ms ih =>
    unfold heldPri
    dsimp only
    rw [mtxPri_eq]
    cases hask : s.mtxAsk m with
    | none =>
      rw [Option.getD_none, if_neg (not_lt.mpr hle)]
      have hset : {p | ∃ m' ∈ m :: ms, s.mtxAsk m' = some p} = {p | ∃ m' ∈ ms, s.mtxAsk m' =
          some p} := by
        ext p
        simp [hask]
      rw [hset]
      exact ih hle
    | some p =>
      rw [Option.getD_some]
      have hmin : (if newpri > p then p else newpri) = min newpri p := by
        rw [min_def]
        split_ifs <;> omega
      have hset : insert newpri {p | ∃ m' ∈ m :: ms, s.mtxAsk m' = some p} =
          insert newpri (insert p {p | ∃ m' ∈ ms, s.mtxAsk m' = some p}) := by
        ext p'
        simp [hask, eq_comm]
      rw [hmin, hset]
      obtain ⟨hmem, hlow⟩ := ih (min_le_right newpri p)
      refine ⟨?_, ?_⟩
      · rcases hmem with he | hmem
        · rw [he]
          rcases min_choice newpri p with h | h <;> rw [h]
          · exact .inl rfl
          · exact .inr (.inl rfl)
        · exact .inr (.inr hmem)
      · have hle' := hlow (Set.mem_insert _ _)
        rintro p' (rfl | rfl | hp')
        · exact hle'.trans (min_le_left _ _)
        · exact hle'.trans (min_le_right _ _)
        · exact hlow (.inr hp')

theorem chgPriHeld_fst (s : Kern) (ms : List ID) (hi low pri : ℕ) :
    (s.chgPriHeld ms hi low pri).1 = s.heldPri ms hi pri := by
  induction ms generalizing hi low pri with
  | nil => rfl
  | cons m ms ih =>
    unfold chgPriHeld heldPri
    exact ih _ _ _

theorem isInherit_not_ceiling (hi : s.IsInherit m) : ¬s.IsCeiling m := by
  unfold IsInherit at hi
  unfold IsCeiling
  rw [hi]
  decide

theorem isInherit_tpri {atr : ℕ} (hatr : s.objatr (.mtx, m) = some atr) (hi : s.IsInherit m) :
    WaitKind.tpri atr .mtx = true := by
  unfold IsInherit at hi
  rw [hatr, Option.getD_some] at hi
  have hne : atr &&& TA_CEILING ≠ 0 := by
    rw [hi]
    decide
  exact decide_eq_true hne

/-- The first task in the queue of the mutex is the most urgent of those that wait for it. -/
theorem MutexInv.head_le (inv : MutexInv x l s) (hi : s.IsInherit m) {us : List Tsk}
    (hq : s.queue (.mtx, m) = u :: us) (hw : w ∈ s.queue (.mtx, m)) : s.pri u ≤ s.pri w := by
  obtain ⟨atr, hatr⟩ := Option.ne_none_iff_exists'.mp (IsInherit.registered hi)
  have hsorted := inv.order.sorted .mtx m atr hatr (isInherit_tpri hatr hi)
  rw [hq] at hsorted hw
  rcases List.mem_cons.mp hw with rfl | hw
  · exact le_rfl
  · exact (List.rel_of_pairwise_cons hsorted hw).le

theorem MutexInv.holds (inv : MutexInv x l s) (ht : t ∈ s.present x) (hm : m ∈ (s.tcb t).mtxlist) :
    m ∉ l ∧ s.mtxtsk m = some t := by
  have ha : (s.tcb t).Alive := by
    refine ⟨ht.1, fun hd => ?_⟩
    rw [inv.ceil.dead t (fun ha => ha.2 hd) (.inl hd)] at hm
    cases hm
  have hx : x ≠ some t := ht.2.symm
  exact ⟨fun hl => inv.ceil.free m hl t ha hx hm, ((inv.ceil.holds t ha hx).held m hm).1⟩

theorem MutexInv.holder (inv : MutexInv x l s) (hi : s.IsInherit m) (hl : m ∉ l)
    (hm : s.mtxtsk m = some u) :
    u ∈ s.present x ∧ m ∈ (s.tcb u).mtxlist := by
  obtain ⟨⟨ha, hx⟩, hmem⟩ := (inv.ceil.owner u m (IsInherit.registered hi) hm).resolve_left hl
  exact ⟨⟨ha.1, hx.symm⟩, hmem⟩

/-- `release_mutex` computes the priority that the task is to have. -/
theorem MutexInv.resetPri (inv : MutexInv x l s) (ht : t ∈ s.present x) :
    IsLeast (asks s.ownPri (s.Follows l none) s.pri t) (s.resetPri t) := by
  obtain ⟨hmem, hlow⟩ := heldPri_isLeast s (s.tcb t).mtxlist (le_refl (s.tcb t).bpriority)
  refine ⟨?_, ?_⟩
  · rcases hmem with he | ⟨m, hm, hask⟩
    · exact .inl (.inl he)
    · unfold mtxAsk at hask
      split_ifs at hask with hc hi
      · exact .inl (.inr ⟨m, hm, hc, Option.some.inj hask⟩)
      · obtain ⟨u, hu, hpri⟩ := Option.map_eq_some_iff.mp hask
        obtain ⟨hl, hown⟩ := inv.holds ht hm
        exact .inr ⟨u, .inl ⟨m, List.mem_of_mem_head? hu, hi, hl, hown⟩, hpri⟩
  · rintro p ((rfl | ⟨m, hm, hc, rfl⟩) | ⟨w, ⟨m, hw, hi, hl, hown⟩ | he, rfl⟩)
    · exact hlow (Set.mem_insert _ _)
    · exact hlow (.inr ⟨m, hm, if_pos hc⟩)
    · obtain ⟨u, us, hq⟩ := List.exists_cons_of_ne_nil (List.ne_nil_of_mem hw)
      refine (hlow (.inr ⟨m, (inv.holder hi hl hown).2, ?_⟩)).trans (inv.head_le hi hq hw)
      unfold mtxAsk
      rw [if_neg (isInherit_not_ceiling hi), if_pos hi, hq]
      rfl
    · cases he

/-! ## What keeps the graph -/

theorem MtxKeeps.ownPri (k : MtxKeeps s s') : s'.ownPri = s.ownPri := by
  funext t
  ext p
  unfold Kern.ownPri
  simp only [Set.mem_ofPred_eq, k.bpriority, k.mtxlist, k.isCeiling, k.ceilpri]

theorem MtxKeeps.isInherit (k : MtxKeeps s s') : s'.IsInherit m ↔ s.IsInherit m := by
  unfold IsInherit
  rw [k.objatr]

theorem MtxKeeps.follows (k : MtxKeeps s s')
    (hq : ∀ m w, w ∈ s'.queue (.mtx, m) ↔ w ∈ s.queue (.mtx, m)) :
    s'.Follows l e = s.Follows l e := by
  funext w u
  unfold Follows
  simp only [hq, k.isInherit, k.mtxtsk]

theorem MtxKeeps.present (k : MtxKeeps s s') (link : LinkInv True (x, s)) :
    s'.present x ⊆ s.present x := by
  rintro t ⟨hn, hx⟩
  refine ⟨?_, hx⟩
  by_cases ha : (s'.tcb t).Alive
  · rcases k.alive t ha with ha | ⟨q, hq⟩
    · exact ha.1
    · exact (alive_of_isWait (link.waits t q (.inl trivial) hq).1.1).1
  · rwa [(k.dead t ha).1] at hn

/-- The priorities and the queues of the mutexes are the same. -/
structure Steady (s s' : Kern) : Prop where
  pri : s'.pri = s.pri
  queue : ∀ m, s'.queue (.mtx, m) = s.queue (.mtx, m)

theorem Boosted.steady (h : s.Boosted x l e) (link : LinkInv True (x, s)) (k : MtxKeeps s s')
    (steady : Steady s s') :
    s'.Boosted x l e := by
  unfold Boosted
  rw [k.ownPri, k.follows fun m w => by rw [steady.queue], steady.pri]
  exact h.mono (k.present link)

/-! ## One change of priority -/

theorem waitRelease_pri (s : Kern) (t : Tsk) : (s.waitRelease t).pri = s.pri := by
  funext u
  unfold pri
  by_cases hu : u = t
  · rw [hu, waitRelease_self, TaskCB.released]
    split_ifs <;> rfl
  · rw [waitRelease_of_ne hu]

theorem wakeup_pri (q : QueueId) (n : ℕ) (s : Kern) : (wakeup q n s).pri = s.pri := by
  induction n generalizing s with
  | zero => rfl
  | succ n ih =>
    unfold wakeup
    split
    · rfl
    · rw [ih, waitRelease_pri]

/-- The tasks of the other queues are in no queue of a mutex. -/
def Kern.Apart (s : Kern) : Prop :=
  ∀ q : QueueId, q.1 ≠ .mtx → ∀ u ∈ s.queue q, ∀ m, u ∉ s.queue (.mtx, m)

theorem Apart.sub (h : s.Apart) (hsub : ∀ q, s'.queue q ⊆ s.queue q) : s'.Apart :=
  fun q hq u hu m hm => h q hq u (hsub q hu) m (hsub _ hm)

theorem LinkInv.apart (link : LinkInv True (x, s)) : s.Apart := by
  intro q hq u hu m hm
  have hqueue := (link.waits u _ (.inl trivial) hu).2
  rw [(link.waits u _ (.inl trivial) hm).2] at hqueue
  exact hq (congrArg Prod.fst (Option.some.inj hqueue)).symm

theorem waitRelease_sub (s : Kern) (t : Tsk) (q : QueueId) :
    (s.waitRelease t).queue q ⊆ s.queue q := by
  rw [waitRelease_queue]
  exact List.erase_subset

theorem wakeup_mtx_queue (n : ℕ) (h : s.Apart) (hq : q.1 ≠ .mtx) :
    (wakeup q n s).queue (.mtx, m) = s.queue (.mtx, m) := by
  induction n generalizing s with
  | zero => rfl
  | succ n ih =>
    unfold wakeup
    split
    · rfl
    · next u us hu =>
      rw [ih (Apart.sub h (waitRelease_sub s u)), waitRelease_queue]
      exact List.erase_of_not_mem (h q hq u (hu ▸ List.mem_cons_self) m)

theorem mtxChgPri_fst (oldpri : ℕ) :
    (s.mtxChgPri t oldpri).1 = s.requeue t (.mtx, (s.tcb t).wid) := by
  unfold mtxChgPri
  dsimp only
  split_ifs
  · split
    · rfl
    · split_ifs
      · rfl
      · rw [releaseMutex_none]
      · rfl
  · rfl

theorem chgPriHook_pri (oldpri : ℕ) : (s.chgPriHook t served oldpri).1.pri = s.pri := by
  unfold chgPriHook
  split
  · rw [mtxChgPri_fst]
    rfl
  · rw [mtxChgPri_fst]
    rfl
  · dsimp only
    split_ifs
    · rw [wakeup_pri]
      rfl
    · rfl
  · rfl

theorem changePriority_pri : (s.changePriority t served p).1.pri = Function.update s.pri t p := by
  have hpri : ((s.upd t fun c => { c with priority := p }).touch t).pri =
      Function.update s.pri t p :=
    moved_pri (m := 0)
  unfold changePriority
  dsimp only
  split_ifs
  · rw [chgPriHook_pri, hpri]
  · exact hpri

theorem requeue_mem (ht : t ∈ s.queue q) (q' : QueueId) :
    w ∈ (s.requeue t q).queue q' ↔ w ∈ s.queue q' := by
  unfold Kern.requeue
  by_cases hq : q' = q
  · rw [hq, setQueue_self]
    exact (gcbChangePriority_perm _ ht).mem_iff
  · rw [setQueue_of_ne hq]

theorem chgPriHook_mem_kern (oldpri : ℕ) (ht : ∀ q, s.waitQueue t = some q → t ∈ s.queue q)
    (h : s.Apart) :
    w ∈ (s.chgPriHook t served oldpri).1.queue (.mtx, m) ↔ w ∈ s.queue (.mtx, m) := by
  have hqueue {k : WaitKind} (hk : (s.tcb t).wspec.kind = some k) :
      t ∈ s.queue (k, (s.tcb t).wid) := by
    refine ht _ ?_
    unfold waitQueue
    rw [hk]
    rfl
  unfold chgPriHook
  split
  · next hspec =>
    rw [mtxChgPri_fst]
    exact requeue_mem (hqueue (by rw [hspec]; rfl)) _
  · next hspec =>
    rw [mtxChgPri_fst]
    exact requeue_mem (hqueue (by rw [hspec]; rfl)) _
  · next k hk hspec =>
    have ht := hqueue (k := k) (by rw [hspec]; rfl)
    dsimp only
    split_ifs
    · rw [wakeup_mtx_queue _ (Apart.sub h fun q v hv => (requeue_mem ht q).mp hv) hk]
      exact requeue_mem ht _
    · exact requeue_mem ht _
  · exact Iff.rfl

theorem LinkInv.changePriority_mem (link : LinkInv True (x, s)) (hx : some t ≠ x) :
    w ∈ (s.changePriority t served p).1.queue (.mtx, m) ↔ w ∈ s.queue (.mtx, m) := by
  unfold changePriority
  dsimp only
  split_ifs with hw
  · rw [touch_tcb, upd_self] at hw
    refine chgPriHook_mem_kern _ (fun q hq => link.linked t q ⟨hw, hx⟩ ?_) link.apart
    unfold waitQueue at hq
    rwa [touch_tcb, upd_self] at hq
  · exact Iff.rfl

theorem MutexInv.changePriority (inv : MutexInv x l s) (hx : some t ≠ x) :
    MutexInv x l (s.changePriority t served p).1 :=
  inv.keeps (.changePriority t served p) (changePriority_steps t served p fun _ h => absurd h hx)

theorem LinkInv.changePriority_graph (link : LinkInv True (x, s)) (l : List ID)
    (e : Option (Tsk × Tsk)) (p served : ℕ) (hx : some t ≠ x) :
    (s.changePriority t served p).1.ownPri = s.ownPri ∧
      (s.changePriority t served p).1.Follows l e = s.Follows l e ∧
      (s.changePriority t served p).1.present x ⊆ s.present x := by
  have k : MtxKeeps s (s.changePriority t served p).1 := .changePriority t served p
  exact ⟨k.ownPri, k.follows fun _ _ => link.changePriority_mem hx, k.present link⟩

theorem mtxChgPri_none {oldpri : ℕ} (h : (s.mtxChgPri t oldpri).2 = none)
    (hi : s.IsInherit (s.tcb t).wid) (hu : s.mtxtsk (s.tcb t).wid = some u) :
    s.pri u ≤ s.pri t ∧ (s.pri u = oldpri → (s.mtxChgPri t oldpri).1.resetPri u = s.pri u) := by
  rw [mtxChgPri_fst]
  have hu' : (s.requeue t (.mtx, (s.tcb t).wid)).mtxtsk (s.tcb t).wid = some u := hu
  have hi' : (((s.requeue t (.mtx, (s.tcb t).wid)).objatr (.mtx, (s.tcb t).wid)).getD 0) &&&
    TA_CEILING =
      TA_INHERIT := hi
  unfold mtxChgPri at h
  dsimp only at h
  rw [if_pos hi', hu'] at h
  dsimp only at h
  split_ifs at h with hlt hold
  · refine ⟨not_lt.mp hlt, fun _ => ?_⟩
    rw [releaseMutex_none_eq] at h
    dsimp only at h
    split_ifs at h with hne
    exact not_not.mp hne
  · exact ⟨not_lt.mp hlt, fun h => absurd h hold⟩

theorem LinkInv.inherit_iff (link : LinkInv True (x, s)) (ht : t ∈ s.queue (.mtx, m)) :
    (s.tcb t).wspec = .mtxInherit ↔ s.IsInherit m := by
  obtain ⟨hactive, hqueue⟩ := link.waits t _ (.inl trivial) ht
  obtain ⟨atr, hatr, hspec⟩ := link.registered t _ hactive hqueue
  have hobj : s.objatr (.mtx, m) = some atr := hatr
  rw [hspec]
  unfold IsInherit WaitKind.wspec
  rw [hobj, Option.getD_some]
  split_ifs with hi
  · exact iff_of_true rfl hi.2
  · exact iff_of_false nofun fun h => hi ⟨rfl, h⟩

/-- The change of priority is the last one, and `u` is the holder of the mutex that the task waits
for. -/
theorem MutexInv.changePriority_none (inv : MutexInv x l s)
    (h : (s.changePriority t served p).2 = none) (ht : t ∈ s.queue (.mtx, m)) (hi : s.IsInherit m)
    (hu : s.mtxtsk m = some u) (hne : u ≠ t) :
    s.pri u ≤ p ∧ (s.pri u = s.pri t → (s.changePriority t served p).1.resetPri u = s.pri u) := by
  obtain ⟨hactive, hqueue⟩ := inv.link.waits t _ (.inl trivial) ht
  have hwid : (s.tcb t).wid = m := (waitQueue_eq hqueue).2
  have hinherit : (s.tcb t).wspec = .mtxInherit := (inv.link.inherit_iff ht).mpr hi
  have htcb : ((s.upd t fun c => { c with priority := p }).touch t).tcb t =
      { s.tcb t with priority := p } := by
    rw [touch_tcb, upd_self]
  have hpri : ((s.upd t fun c => { c with priority := p }).touch t).pri =
      Function.update s.pri t p :=
    moved_pri (m := 0)
  have hhook : s.changePriority t served p =
      ((s.upd t fun c => { c with priority := p }).touch t).mtxChgPri t (s.tcb t).priority := by
    have hwait : (((s.upd t fun c => { c with priority := p }).touch t).tcb t).state.isWait := by
      rw [htcb]
      exact hactive.1
    have hspec' : (((s.upd t fun c => { c with priority := p }).touch t).tcb t).wspec =
        .mtxInherit := by
      rw [htcb]
      exact hinherit
    unfold Kern.changePriority chgPriHook
    dsimp only
    rw [if_pos hwait, hspec']
  rw [hhook] at h ⊢
  obtain ⟨hle, hreset⟩ :=
    mtxChgPri_none h (by rw [htcb, hwid]; exact hi) (by rw [htcb, hwid]; exact hu)
  rw [hpri, Function.update_of_ne hne, Function.update_self] at hle
  rw [hpri, Function.update_of_ne hne] at hreset
  exact ⟨hle, hreset⟩

/-! ## The calls of `change_task_priority` that follow each other -/

/-- A waiting task follows the holder of the mutex and no other task. -/
theorem MutexInv.follows_only (inv : MutexInv x l s) (he : ∀ v, e ≠ some (t, v))
    (ht : t ∈ s.queue (.mtx, m)) (hu : s.mtxtsk m = some u) (hw : s.Follows l e t w) : w = u := by
  rcases hw with ⟨m', ht', -, -, hw⟩ | hw
  · have hm : m' = m := by
      by_contra hne
      exact inv.link.not_mem_other ht hne ht'
    rw [hm, hu] at hw
    exact (Option.some.inj hw).symm
  · exact absurd hw (he w)

theorem MutexInv.not_follows_self (inv : MutexInv x l s) (he : ∀ v, e ≠ some (t, v)) :
    ¬s.Follows l e t t := by
  rintro (⟨m, ht, -, -, hm⟩ | hw)
  · obtain ⟨hactive, hqueue⟩ := inv.link.waits t _ (.inl trivial) ht
    exact inv.ceil.other t m ⟨hactive.1, hqueue⟩ hm
  · exact he t hw

/-- The last change of priority. -/
theorem MutexInv.boosted (inv : MutexInv x l s) (hx : some t ≠ x) (he : ∀ v, e ≠ some (t, v))
    (hraise : e = none ∨ p < s.pri t) (h : s.Boosting x l e t p)
    (hnone : (s.changePriority t served p).2 = none) :
    (s.changePriority t served p).1.Boosted x l e := by
  obtain ⟨hown, hfollows, hpresent⟩ := inv.link.changePriority_graph l e p served hx
  have inv' : MutexInv x l (s.changePriority t served p).1 := inv.changePriority hx
  have hself := inv.not_follows_self he
  have hpri : (s.changePriority t served p).1.pri = Function.update s.pri t p := changePriority_pri
  unfold Boosted
  rw [hown, hfollows, hpri]
  by_cases hedge : ∃ m u, t ∈ s.queue (.mtx, m) ∧ s.IsInherit m ∧ m ∉ l ∧ s.mtxtsk m = some u
  · obtain ⟨m, u, ht, hi, hl, hu⟩ := hedge
    have hfollow : s.Follows l e t u := .inl ⟨m, ht, hi, hl, hu⟩
    have hne : u ≠ t := fun c => hself (c ▸ hfollow)
    have honly : ∀ v ∈ s.present x, s.Follows l e t v → v = u :=
      fun v _ => inv.follows_only he ht hu
    obtain ⟨hle, hreset⟩ := inv.changePriority_none hnone ht hi hu hne
    by_cases hold : s.pri u = s.pri t
    · -- the priority of the holder is computed again, and is the same
      obtain rfl := hraise.resolve_right fun hlt => absurd hlt (not_lt.mpr (hold ▸ hle))
      intro v hv
      by_cases hvu : v = u
      · subst hvu
        have hleast := inv'.resetPri hv
        rw [hreset hold, hown, hfollows, hpri] at hleast
        unfold Level
        rwa [Function.update_of_ne hne]
      · exact h.write hself honly v (hpresent hv) hvu
    · exact (h.settle hself honly hfollow hold hle).mono hpresent
  · refine Balanced.mono (h.last (fun u _ hu => ?_) hself) hpresent
    rcases hu with ⟨m, ht, hi, hl, hu⟩ | hu
    · exact hedge ⟨m, u, ht, hi, hl, hu⟩
    · exact he u hu

/-- The change of priority that follows. -/
theorem MutexInv.boosting (inv : MutexInv x l s) (hx : some t ≠ x) (he : ∀ v, e ≠ some (t, v))
    (hraise : e = none ∨ p < s.pri t) (h : s.Boosting x l e t p)
    (hr : (s.changePriority t served p).2 = some (u, p'))
    (hl : ∀ m ∈ l, s.mtxtsk m = some u → ¬s.WaitsMtx t m) (hu : some u ≠ x) :
    (s.changePriority t served p).1.Boosting x l e u p' ∧
      u ∈ (s.changePriority t served p).1.present x ∧
      (e = none ∨ p' = p ∧ p < (s.changePriority t served p).1.pri u) := by
  obtain ⟨m, hi, hm, hw, hstate, hcases⟩ := changePriority_next hr
  have inv' : MutexInv x l (s.changePriority t served p).1 := inv.changePriority hx
  obtain ⟨hown, hfollows, hpresent⟩ := inv.link.changePriority_graph l e p served hx
  have ht : t ∈ s.queue (.mtx, m) := inv.link.linked t _ ⟨hw.1, hx⟩ hw.2
  have hml : m ∉ l := fun hml => hl m hml hm hw
  have hself := inv.not_follows_self he
  have hfollow : s.Follows l e t u := .inl ⟨m, ht, hi, hml, hm⟩
  have hne : u ≠ t := fun c => hself (c ▸ hfollow)
  have honly : ∀ v ∈ s.present x, s.Follows l e t v → v = u := fun v _ => inv.follows_only he ht hm
  have hpri : (s.changePriority t served p).1.pri = Function.update s.pri t p := changePriority_pri
  have hpu : (s.moved t m p).pri u = s.pri u := moved_pri_of_ne hne
  have hupresent : u ∈ (s.changePriority t served p).1.present x := by
    rw [hstate]
    refine ⟨?_, hu⟩
    rw [moved_mtxlist.2.2.1]
    exact (inv.holder hi hml hm).1.1
  rw [hpu] at hcases
  refine ⟨?_, hupresent, ?_⟩
  · unfold Boosting
    rcases hcases with ⟨hlt, rfl⟩ | ⟨hle, hold, hreset, -⟩
    · rw [hown, hfollows, hpri]
      exact (h.raise hself honly (hpresent hupresent) hfollow hlt).mono hpresent
    · obtain rfl := hraise.resolve_right fun hlt => absurd hlt (not_lt.mpr (hold ▸ hle))
      refine ⟨fun v hv hvu => ?_, ?_⟩
      · rw [hown, hfollows, hpri]
        exact h.write hself honly v (hpresent hv) hvu
      · rw [hreset, ← hstate]
        exact inv'.resetPri hupresent
  · rcases hcases with ⟨hlt, rfl⟩ | ⟨hle, hold, -, -⟩
    · right
      rw [hpri, Function.update_of_ne hne]
      exact ⟨rfl, hlt⟩
    · exact .inl (hraise.resolve_right fun hlt => absurd hlt (not_lt.mpr (hold ▸ hle)))

/-- The way of a change of priority does not come to the task that is away, nor back through a mutex
that goes to another task. -/
def Kern.Clear (x : Option Tsk) (l : List ID) (s : Kern) (tasks : List Tsk) : Prop :=
  ∀ u ∈ tasks.tail, some u ≠ x ∧ ∀ m ∈ l, s.mtxtsk m = some u → ∀ w ∈ tasks, ¬s.WaitsMtx w m

theorem Clear.next {us : List Tsk} (h : s.Clear x l (t :: u :: us))
    (hmtxtsk : s'.mtxtsk = s.mtxtsk) (hwaits : ∀ w m, s'.WaitsMtx w m → s.WaitsMtx w m) :
    s'.Clear x l (u :: us) := by
  intro v hv
  obtain ⟨hx, hl⟩ := h v (List.mem_cons_of_mem u hv)
  refine ⟨hx, fun m hm hown w hw hwait => ?_⟩
  rw [hmtxtsk] at hown
  exact hl m hm hown w (List.mem_cons_of_mem t hw) (hwaits w m hwait)

theorem chain_none (served depth : ℕ) (s : Kern) : chain served depth (s, none) = s := by
  cases depth <;> rfl

/-- All changes of priority together: in the end every task has the priority it is to have. -/
theorem MutexInv.chain_boosted (depth : ℕ) (inv : MutexInv x l s) (ht : t ∈ s.present x)
    (he : ∀ v u, e = some (v, u) → s.pri v = p ∧ p < s.pri t) (h : s.Boosting x l e t p)
    (hdone : rest served depth (s, some (t, p)) = none)
    (hclear : s.Clear x l (chainTasks served depth (s, some (t, p)))) :
    MutexInv x l (chain served depth (s, some (t, p))) ∧
      (chain served depth (s, some (t, p))).Boosted x l e := by
  induction depth generalizing s t p with
  | zero => cases hdone
  | succ depth ih =>
    have hself : ∀ v, e ≠ some (t, v) := fun v hv => (he t v hv).2.ne (he t v hv).1.symm
    have hraise : e = none ∨ p < s.pri t := by
      cases e with
      | none => exact .inl rfl
      | some vu => exact .inr (he vu.1 vu.2 rfl).2
    have inv' : MutexInv x l (s.changePriority t served p).1 := inv.changePriority ht.2
    unfold chain
    unfold rest at hdone
    unfold chainTasks at hclear
    dsimp only at hdone hclear ⊢
    rcases hr : s.changePriority t served p with ⟨s', _ | ⟨u, p'⟩⟩
    · rw [hr] at inv'
      have hboosted := inv.boosted ht.2 hself hraise h (by rw [hr])
      rw [hr] at hboosted
      rw [chain_none]
      exact ⟨inv', hboosted⟩
    · obtain ⟨depth, rfl⟩ : ∃ d, depth = d + 1 := by
        refine Nat.exists_eq_succ_of_ne_zero fun h0 => ?_
        rw [hr, h0] at hdone
        cases hdone
      have htasks : chainTasks served (depth + 1) (s', some (u, p')) =
          u :: chainTasks served depth (s'.changePriority u served p') := rfl
      rw [hr, htasks] at hclear
      obtain ⟨hx, hl⟩ := hclear u List.mem_cons_self
      obtain ⟨hboosting, hu, hnext⟩ := inv.boosting ht.2 hself hraise h (by rw [hr])
        (fun m hm hown => hl m hm hown t List.mem_cons_self) hx
      have hk : MtxKeeps s (s.changePriority t served p).1 := .changePriority t served p
      rw [hr] at inv' hboosting hu hnext hk hdone
      have hpri : s'.pri = Function.update s.pri t p := by
        have h : (s.changePriority t served p).1.pri = Function.update s.pri t p :=
          changePriority_pri
        rwa [hr] at h
      refine ih inv' hu (fun v w hvw => ?_) hboosting hdone (Clear.next hclear hk.mtxtsk hk.waits)
      rcases hnext with hnone | ⟨rfl, hlt⟩
      · rw [hnone] at hvw
        cases hvw
      · refine ⟨?_, hlt⟩
        rw [hpri, Function.update_apply]
        split_ifs
        · rfl
        · exact (he v w hvw).1

end SmpTKernel
