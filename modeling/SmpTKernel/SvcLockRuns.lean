import SmpTKernel.SvcLockInv

/-!
# Runs of the SVC locks

Locking, unlocking, dispatches and the ends of tasks in any order. `AllUnlockSVC` looks at the list
of the task in `ctxtsk`, not at the list of the task it is given; so `tk_ter_tsk` does its work only
where both are the same task, or where the task that ends holds no lock.
-/

namespace SmpTKernel

open LinkedStack Fuel

variable {s s' : SvcState} {held : Tsk → List Lock} {t : Tsk} {prid numProc : ℕ}

/-! ## `_ter_tsk` -/

/-- The list that `AllUnlockSVC` walks is the list of `t`, or there is nothing to unlock. -/
def UnlocksOwn (s : SvcState) (prid : ℕ) (t : Tsk) : Prop :=
  s.svclocked t = none ∨ s.ctxtsk prid = some t

theorem SvcInv.unlockOwn (inv : SvcInv s held) (h : UnlocksOwn s prid t) :
    ∃ s' held', Returns (fun fuel => if s.svclocked t ≠ none then SvcState.allUnlockSvc prid fuel s
      else some s) s' ∧
      Released s s' t held held' := by
  by_cases hnone : s.svclocked t = none
  · have hheld : held t = [] := by
      rw [inv.svclocked_eq] at hnone
      exact List.head?_eq_none_iff.mp hnone
    refine ⟨s, held, (returns_const s).congr fun fuel => if_neg fun h => h hnone, inv, hheld, rfl,
      rfl, fun _ _ _ h => h, fun l hl => ?_, fun _ _ => rfl⟩
    rw [hheld] at hl
    exact absurd hl List.not_mem_nil
  · obtain ⟨s', held', hret, hr⟩ := inv.allUnlock (h.resolve_left hnone) rfl
    exact ⟨s', held', hret.congr fun fuel => if_pos hnone, hr⟩

/-- Being passed on is not undone when `t` leaves its queue. -/
theorem PassedOn.leave {l : Lock} {held' : Tsk → List Lock} (h : PassedOn s s' t l held') :
    PassedOn s (s'.leaveLockQueue t) t l held' := by
  intro queue hq
  have h := h queue hq
  split at h
  · unfold SvcState.leaveLockQueue
    split_ifs
    · show (s'.wtskq l).map _ = none
      rw [h]
      rfl
    · exact h
  · exact h

/-- **`_ter_tsk`** on a processor where it unlocks the task's own locks. -/
theorem SvcInv.terTsk (inv : SvcInv s held) (h : UnlocksOwn s prid t) :
    ∃ s' held', Returns (fun fuel => s.terTsk fuel prid t) s' ∧ SvcInv s' held' ∧ s'.NotWaiting t ∧
      held' t = [] ∧
      s'.state = s.state ∧ s'.ctxtsk = s.ctxtsk ∧ (∀ u l, u ≠ t → l ∈ held u → l ∈ held' u) ∧
      ∀ l ∈ held t, PassedOn s s' t l held' := by
  obtain ⟨s₁, held', hret, hr⟩ := inv.unlockOwn h
  have hmap := hret.map fun s => if s.state t = .ready then s.leaveLockQueue t else s
  by_cases hready : s₁.state t = .ready
  · rw [if_pos hready] at hmap
    obtain ⟨hinv, hnot⟩ := hr.inv.leaveLockQueue t
    obtain ⟨hctx, hstate, -⟩ := leaveLockQueue_frame s₁ t
    exact ⟨_, held', hmap, hinv, hnot, hr.none, hstate.trans hr.state,
      hctx.trans hr.ctxtsk, hr.kept, fun l hl => (hr.passed l hl).leave⟩
  · rw [if_neg hready] at hmap
    refine ⟨s₁, held', hmap, hr.inv, fun l queue hq ht => ?_, hr.none, hr.state, hr.ctxtsk, hr.kept,
      hr.passed⟩
    exact hready (hr.inv.waits l queue t hq ht).2

/-! ## Calls -/

inductive SvcOp
  /-- A turn of the loop in `LockSVC`. -/
  | lock (prid : ℕ) (loc : Lock)
  | unlock (prid : ℕ)
  | dispatch (prid : ℕ) (next : Option Tsk)
  | ter (prid : ℕ) (indp : Bool) (t : Tsk) (prot : ER) (klocked : Bool)
  | ext (prid : ℕ)
  | exd (prid : ℕ)
  | cre (t : Tsk)
  | sta (t : Tsk)

def SvcOp.exec (numProc fuel : ℕ) (s : SvcState) : SvcOp → Option SvcState
  | lock prid loc => (s.lockSvc prid loc).map Prod.snd
  | unlock prid => s.unlockSvc prid
  | dispatch prid next => some { s with ctxtsk := Function.update s.ctxtsk prid next }
  | ter prid indp t prot klocked => (s.tkTerTsk fuel prid indp t prot klocked).map Prod.snd
  | ext prid => s.tkExtTsk fuel prid
  | exd prid => s.tkExdTsk fuel prid
  | cre t => some (s.creTsk t)
  | sta t => some (s.staTsk numProc t).2

/-- The processor executes a task that has not been ended under way; such a task is thrown off at
the next critical section. -/
def Executes (s : SvcState) (prid : ℕ) (t : Tsk) : Prop :=
  s.ctxtsk prid = some t ∧ s.state t = .ready

/-- A task calls while it runs, and unlocks what it has locked; a dispatch gives the processor to a
task that is ready; a task is created in a free control block. -/
def SvcOp.Legal (numProc : ℕ) (s : SvcState) : SvcOp → Prop
  | lock prid _ => ∃ t, Executes s prid t
  | unlock prid => ∃ t, Executes s prid t ∧ s.svclocked t ≠ none
  | dispatch prid next => ∀ t, next = some t → s.state t = .ready ∧ s.klockwait t = false ∧
      ∀ i < numProc, i ≠ prid → s.ctxtsk i ≠ some t
  | ter prid indp _ _ _ => indp = false → ∃ t, Executes s prid t
  | ext prid | exd prid => ∃ t, Executes s prid t
  | cre t => s.state t = .nonexist ∧ s.isCtxtsk numProc t = false
  | sta _ => True

/-- `tk_ter_tsk` gets past its checks. -/
def Terminates (s : SvcState) (prid : ℕ) (indp : Bool) (t : Tsk) (prot : ER) (klocked : Bool) :
    Prop :=
  ¬(indp = false ∧ s.ctxtsk prid = some t) ∧ (s.state t).Alive ∧ prot = E_OK ∧ klocked = false

/-- A task that is terminated holds no lock, or the processor that terminates it executes it. -/
def SvcOp.OwnLocks (s : SvcState) : SvcOp → Prop
  | ter prid indp t prot klocked => Terminates s prid indp t prot klocked → UnlocksOwn s prid t
  | _ => True

/-- Runs from the start of the system, all steps of which are `ok`. -/
inductive SvcRun (numProc : ℕ) (ok : SvcState → SvcOp → Prop) : SvcState → Prop
  | init (locklist : Lock → Option Lock) : SvcRun numProc ok (SvcState.taskInitialize locklist)
  | step {s s' : SvcState} (op : SvcOp) : SvcRun numProc ok s → op.Legal numProc s → ok s op →
      Returns (fun fuel => op.exec numProc fuel s) s' → SvcRun numProc ok s'

theorem tkTerTsk_eq {indp klocked : Bool} {prot : ER} (h : Terminates s prid indp t prot klocked)
    (fuel : ℕ) :
    s.tkTerTsk fuel prid indp t prot klocked = (s.terTsk fuel prid t).map fun s =>
      (E_OK, s.makeDormant t) := by
  obtain ⟨hself, halive, rfl, rfl⟩ := h
  unfold SvcState.tkTerTsk
  rw [if_neg, if_neg halive.1, if_neg (fun h => h rfl), if_neg halive.2, if_neg Bool.false_ne_true]
  intro h
  rw [Bool.and_eq_true, Bool.not_eq_true', decide_eq_true_iff] at h
  exact hself h

theorem tkTerTsk_refused {indp klocked : Bool} {prot : ER}
    (h : ¬Terminates s prid indp t prot klocked) (fuel : ℕ) :
    (s.tkTerTsk fuel prid indp t prot klocked).map Prod.snd = some s := by
  unfold SvcState.tkTerTsk
  split_ifs with h₁ h₂ h₃ h₄ h₅
  · rfl
  · rfl
  · rfl
  · rfl
  · rfl
  · refine absurd ⟨fun h => h₁ ?_, ⟨h₂, h₄⟩, not_not.mp h₃, (Bool.not_eq_true _).mp h₅⟩ h
    rw [Bool.and_eq_true, Bool.not_eq_true', decide_eq_true_iff]
    exact h

/-- The task ends: it waits for no lock and holds none, and the processor may go on. -/
theorem SvcInv.ended (inv : SvcInv s held) (hnot : s.NotWaiting t) (hheld : held t = [])
    (state : TaskState) (klockwait : Bool) (ctxtsk : ℕ → Option Tsk) :
    SvcInv { s with
      ctxtsk := ctxtsk
      state := Function.update s.state t state
      klockwait := Function.update s.klockwait t klockwait } held :=
  inv.setState hnot (Or.inl hheld) klockwait ctxtsk

theorem SvcInv.notWaiting (inv : SvcInv s held) (h : s.state t ≠ .ready) : s.NotWaiting t :=
  fun l queue hq ht => h (inv.waits l queue t hq ht).2

theorem SvcInv.nil_of_not_alive (inv : SvcInv s held) (h : ¬(s.state t).Alive) : held t = [] := by
  rw [List.eq_nil_iff_forall_not_mem]
  intro l hl
  exact h (inv.alive t l hl)

theorem SvcInv.tkTerTsk (inv : SvcInv s held) {indp klocked : Bool} {prot : ER}
    (hter : Terminates s prid indp t prot klocked) (h : UnlocksOwn s prid t) :
    ∃ s' held', Returns (fun fuel => s.tkTerTsk fuel prid indp t prot klocked) (E_OK, s') ∧
      SvcInv s' held' ∧
      held' t = [] ∧ (∀ u l, u ≠ t → l ∈ held u → l ∈ held' u) ∧
        ∀ l ∈ held t, PassedOn s s' t l held' := by
  obtain ⟨s₁, held', hret, hinv, hnot, hheld, -, -, hkept, hpassed⟩ := inv.terTsk h
  refine ⟨s₁.makeDormant t, held', ?_, ?_, hheld, hkept, hpassed⟩
  · exact (hret.map fun s => ((E_OK : ER), s.makeDormant t)).congr (tkTerTsk_eq hter)
  · exact hinv.ended hnot hheld .dormant false s₁.ctxtsk

theorem SvcInv.staTsk (inv : SvcInv s held) (numProc : ℕ) (t : Tsk) :
    SvcInv (s.staTsk numProc t).2 held ∧ (s.staTsk numProc t).2.wtskq = s.wtskq := by
  unfold SvcState.staTsk
  split_ifs with h₁ h₂
  · exact ⟨inv, rfl⟩
  · exact ⟨inv, rfl⟩
  · have hstate : s.state t = .dormant := not_not.mp (not_or.mp h₂).1
    have hnot : s.NotWaiting t := inv.notWaiting (by rw [hstate]; decide)
    have halive : TaskState.Alive .ready := ⟨by decide, by decide⟩
    have hset := inv.setState hnot (Or.inr halive) (s.klockwait t) s.ctxtsk
    rw [Function.update_eq_self] at hset
    exact ⟨hset, rfl⟩

/-- Every call that is legal and unlocks own locks only returns, with the locks in order. -/
theorem SvcInv.exec (inv : SvcInv s held) {op : SvcOp} (hl : op.Legal numProc s)
    (hok : op.OwnLocks s) :
    ∃ s' held', Returns (fun fuel => op.exec numProc fuel s) s' ∧ SvcInv s' held' := by
  cases op with
  | lock prid loc =>
    obtain ⟨t, hc, hready⟩ := hl
    obtain ⟨b, s', held', heq, -, hinv⟩ := inv.lockSvc hc hready loc
    refine ⟨s', held', (returns_const s').congr fun fuel => ?_, hinv⟩
    rw [SvcOp.exec, heq]
    rfl
  | unlock prid =>
    obtain ⟨t, ⟨hc, -⟩, hheld⟩ := hl
    obtain ⟨loc, hloc⟩ := Option.ne_none_iff_exists'.mp hheld
    rw [inv.svclocked_eq] at hloc
    obtain ⟨ls, hls⟩ := List.head?_eq_some_iff.mp hloc
    obtain ⟨queue, hq⟩ := inv.queue_of_mem (t := t) (l := loc) (hls ▸ List.mem_cons_self)
    obtain ⟨s', hrel, hinv, -⟩ := inv.release hls hq
    refine ⟨s', _, (returns_const s').congr fun fuel => ?_, hinv⟩
    rw [SvcOp.exec, SvcState.unlockSvc, hc, Option.bind_some, inv.svclocked_eq, hloc,
      Option.bind_some, hrel]
  | dispatch prid next => exact ⟨_, held, returns_const _, inv.setCtxtsk _⟩
  | ter prid indp t prot klocked =>
    by_cases hter : Terminates s prid indp t prot klocked
    · obtain ⟨s', held', hret, hinv, -⟩ := inv.tkTerTsk hter (hok hter)
      exact ⟨s', held', hret.map Prod.snd, hinv⟩
    · exact ⟨s, held, (returns_const s).congr (tkTerTsk_refused hter), inv⟩
  | ext prid =>
    obtain ⟨t, hc, -⟩ := hl
    obtain ⟨s₁, held', hret, hinv, hnot, hheld, -⟩ := inv.terTsk (Or.inr hc)
    refine ⟨(s₁.makeDormant t).forceDispatch prid, held', ?_,
      hinv.ended hnot hheld .dormant false _⟩
    refine (hret.map fun s => (s.makeDormant t).forceDispatch prid).congr fun fuel => ?_
    rw [SvcOp.exec, SvcState.tkExtTsk, hc, Option.bind_some]
  | exd prid =>
    obtain ⟨t, hc, -⟩ := hl
    obtain ⟨s₁, held', hret, hinv, hnot, hheld, -⟩ := inv.terTsk (Or.inr hc)
    have hended :=
      hinv.ended hnot hheld .nonexist (s₁.klockwait t) (Function.update s₁.ctxtsk prid none)
    rw [Function.update_eq_self] at hended
    refine ⟨_, held', ?_, hended⟩
    refine (hret.map fun s => SvcState.forceDispatch { s with
      state := Function.update s.state t .nonexist } prid).congr
      fun fuel => ?_
    rw [SvcOp.exec, SvcState.tkExdTsk, hc, Option.bind_some]
  | cre t =>
    have hnil : held t = [] := inv.nil_of_not_alive fun h => h.1 hl.1
    have hnot : s.NotWaiting t := inv.notWaiting (by rw [hl.1]; decide)
    exact ⟨_, held, returns_const _, inv.ended hnot hnil .dormant false s.ctxtsk⟩
  | sta t => exact ⟨_, held, returns_const _, (inv.staTsk numProc t).1⟩

/-! ## Runs -/

theorem SvcRun.inv (run : SvcRun numProc SvcOp.OwnLocks s) : ∃ held, SvcInv s held := by
  induction run with
  | init locklist => exact ⟨_, svcInv_taskInitialize locklist⟩
  | step op _ hl hok hret ih =>
    obtain ⟨held, inv⟩ := ih
    obtain ⟨s', held', hret', inv'⟩ := inv.exec hl hok
    obtain rfl := hret.unique hret'
    exact ⟨held', inv'⟩

/-- The lock is on the list of the task. -/
def SvcState.Holds (s : SvcState) (t : Tsk) (l : Lock) : Prop :=
  ∃ ls, IsStack s.locklist (s.svclocked t) ls ∧ l ∈ ls

/-- Every task has a list of locks, and a lock is marked locked if and only if it is on the list of
exactly one task, which is alive, and there once. -/
def LocksRight (s : SvcState) : Prop :=
  ∃ held : Tsk → List Lock, (∀ t, IsStack s.locklist (s.svclocked t) (held t)) ∧
    (∀ t l, l ∈ held t → s.wtskq l ≠ none) ∧
    ∀ l, s.wtskq l ≠ none → ∃ t, (s.state t).Alive ∧ (held t).count l = 1 ∧ ∀ u, u ≠ t → l ∉ held u

/-- What the end of `t` has to do with the locks: `t` holds none afterwards, each of its locks has
gone to the first other task that waited for it or is free, and all others hold what they held. -/
structure TerminatedRight (s s' : SvcState) (t : Tsk) : Prop where
  none : s'.svclocked t = none
  passed : ∀ l, s.Holds t l → ∀ queue, s.wtskq l = some queue →
    match (queue.filter fun u => u ≠ t).head? with
    | Option.none => s'.wtskq l = Option.none
    | some u => s'.Holds u l
  kept : ∀ u l, u ≠ t → s.Holds u l → s'.Holds u l

theorem SvcInv.holds_iff (inv : SvcInv s held) {l : Lock} : s.Holds t l ↔ l ∈ held t := by
  constructor
  · rintro ⟨ls, hls, hl⟩
    rwa [hls.unique (inv.lists.stack t)] at hl
  · exact fun hl => ⟨held t, inv.lists.stack t, hl⟩

theorem SvcInv.locksRight (inv : SvcInv s held) : LocksRight s := by
  refine ⟨held, inv.lists.stack, fun t l hl => (inv.marked l).mpr ⟨t, hl⟩, fun l hl => ?_⟩
  obtain ⟨t, ht⟩ := (inv.marked l).mp hl
  refine ⟨t, inv.alive t l ht, List.count_eq_one_of_mem (inv.lists.nodup t) ht, fun u hu hl =>
    hu ?_⟩
  exact inv.lists.disj u t l hl ht

/-- A release by `c` leaves no other task without locks. -/
theorem releaseLock_other {c : Tsk} {loc : Lock} (hne : t ≠ c) (hlocked : s.svclocked t ≠ none)
    (h : s.releaseLock c loc = some s') : s'.ctxtsk = s.ctxtsk ∧ s'.svclocked t ≠ none := by
  unfold SvcState.releaseLock SvcState.passLock at h
  obtain ⟨queue, -, rfl⟩ := Option.map_eq_some_iff.mp h
  cases queue with
  | nil =>
    refine ⟨rfl, ?_⟩
    show Function.update s.svclocked c _ t ≠ none
    rwa [Function.update_of_ne hne]
  | cons u rest =>
    refine ⟨rfl, ?_⟩
    show Function.update (Function.update s.svclocked c _) u (some loc) t ≠ none
    by_cases hu : t = u
    · subst hu
      rw [Function.update_self]
      exact Option.some_ne_none loc
    · rwa [Function.update_of_ne hu, Function.update_of_ne hne]

theorem allUnlockSvc_other {c : Tsk} (hne : t ≠ c) :
    ∀ {fuel : ℕ} {s : SvcState}, s.ctxtsk prid = some c →
    s.svclocked t ≠ none → SvcState.allUnlockSvc prid fuel s = some s' → s'.svclocked t ≠ none
  | 0, _, _, _, h => nomatch h
  | fuel + 1, s, hc, hlocked, h => by
    rw [SvcState.allUnlockSvc, hc, Option.bind_some] at h
    cases hloc : s.svclocked c with
    | none =>
      rw [hloc] at h
      rwa [← Option.some.inj h]
    | some loc =>
      rw [hloc] at h
      obtain ⟨s₁, hrel, h⟩ := Option.bind_eq_some_iff.mp h
      obtain ⟨hctx, hlocked₁⟩ := releaseLock_other hne hlocked hrel
      exact allUnlockSvc_other hne (hctx ▸ hc) hlocked₁ h

/-- Where the list of another task is walked, the task that ends keeps its locks. -/
theorem terTsk_other (h : ¬UnlocksOwn s prid t) {fuel : ℕ} (hret : s.terTsk fuel prid t = some s') :
    s'.svclocked t ≠ none := by
  obtain ⟨hlocked, hc⟩ := not_or.mp h
  unfold SvcState.terTsk at hret
  rw [if_pos hlocked] at hret
  obtain ⟨s₁, hall, rfl⟩ := Option.map_eq_some_iff.mp hret
  have hs₁ : s₁.svclocked t ≠ none := by
    cases hctx : s.ctxtsk prid with
    | none =>
      cases fuel with
      | zero => exact absurd hall.symm (Option.some_ne_none s₁)
      | succ fuel =>
        rw [SvcState.allUnlockSvc, hctx] at hall
        exact absurd hall.symm (Option.some_ne_none s₁)
    | some c => exact allUnlockSvc_other (fun e => hc (e ▸ hctx)) hctx hlocked hall
  split_ifs
  · rwa [(leaveLockQueue_frame s₁ t).2.2.1]
  · exact hs₁

/-- **Ownership of the SVC locks.** In every run in which `tk_ter_tsk` only ends tasks that hold no
lock or that its own processor executes, a lock is marked locked if and only if it is on the list of
one live task; and there `tk_ter_tsk` passes the locks on as it should exactly in these cases. -/
theorem svcRun_ownership (run : SvcRun numProc SvcOp.OwnLocks s) :
    LocksRight s ∧ ∀ (prid : ℕ) (indp : Bool) (t : Tsk) (prot : ER) (klocked : Bool),
      Terminates s prid indp t prot klocked →
        (UnlocksOwn s prid t → ∃ s', TerminatedRight s s' t ∧ LocksRight s' ∧
          Returns (fun fuel => s.tkTerTsk fuel prid indp t prot klocked) (E_OK, s')) ∧
        (¬UnlocksOwn s prid t → ∀ s',
          Returns (fun fuel => s.tkTerTsk fuel prid indp t prot klocked) (E_OK, s') →
            ¬TerminatedRight s s' t) := by
  obtain ⟨held, inv⟩ := run.inv
  refine ⟨inv.locksRight, fun prid indp t prot klocked hter =>
    ⟨fun hown => ?_, fun hown s' hret hright => ?_⟩⟩
  · obtain ⟨s', held', hret, inv', hnone, hkept, hpassed⟩ := inv.tkTerTsk hter hown
    refine ⟨s', ⟨?_, fun l hl queue hq => ?_, fun u l hu hl => ?_⟩, inv'.locksRight, hret⟩
    · rw [inv'.svclocked_eq, hnone, List.head?_nil]
    · have hpass := hpassed l (inv.holds_iff.mp hl) queue hq
      cases hfirst : (queue.filter fun u => u ≠ t).head? with
      | none =>
        rw [hfirst] at hpass
        exact hpass
      | some u =>
        rw [hfirst] at hpass
        exact inv'.holds_iff.mpr hpass
    · exact inv'.holds_iff.mpr (hkept u l hu (inv.holds_iff.mp hl))
  · obtain ⟨n, hn⟩ := hret
    obtain ⟨s₁, hs₁, heq⟩ :=
      Option.map_eq_some_iff.mp ((tkTerTsk_eq hter n).symm.trans (hn n le_rfl))
    have hlocked := terTsk_other hown hs₁
    obtain ⟨-, rfl⟩ := Prod.mk.inj heq
    exact hlocked hright.none


/-- A start with the tasks 1 and 2 on the processors 0 and 1, each of which has locked its own
lock. -/
theorem svcRun_two (ok : SvcState → SvcOp → Prop) (hok : ∀ s op, op.OwnLocks s → ok s op) :
    ∃ s, SvcRun 2 ok s ∧ s.ctxtsk 0 = some 1 ∧ s.ctxtsk 1 = some 2 ∧ s.state 2 = .ready ∧
      s.svclocked 1 = some 1 ∧
      s.svclocked 2 = some 2 ∧ s.locklist 1 = none ∧ s.wtskq 1 = some [] ∧ s.wtskq 2 = some [] := by
  have run := @SvcRun.init 2 ok fun _ => none
  have run := run.step (.cre 1) ⟨rfl, rfl⟩ (hok _ _ trivial) ⟨0, fun _ _ => rfl⟩
  have run := run.step (.cre 2) ⟨rfl, rfl⟩ (hok _ _ trivial) ⟨0, fun _ _ => rfl⟩
  have run := run.step (.sta 1) trivial (hok _ _ trivial) ⟨0, fun _ _ => rfl⟩
  have run := run.step (.sta 2) trivial (hok _ _ trivial) ⟨0, fun _ _ => rfl⟩
  have run := run.step (.dispatch 0 (some 1)) (fun t ht => by
    obtain rfl := Option.some.inj ht
    exact ⟨rfl, rfl, by decide⟩) (hok _ _ trivial) ⟨0, fun _ _ => rfl⟩
  have run := run.step (.dispatch 1 (some 2)) (fun t ht => by
    obtain rfl := Option.some.inj ht
    exact ⟨rfl, rfl, by decide⟩) (hok _ _ trivial) ⟨0, fun _ _ => rfl⟩
  have run := run.step (.lock 0 1) ⟨1, rfl, rfl⟩ (hok _ _ trivial) ⟨0, fun _ _ => rfl⟩
  have run := run.step (.lock 1 2) ⟨2, rfl, rfl⟩ (hok _ _ trivial) ⟨0, fun _ _ => rfl⟩
  exact ⟨_, run, rfl, rfl, rfl, rfl, rfl, rfl, rfl, rfl⟩

/-- A handler on processor 1 ends the task that this processor executes. -/
theorem svcRun_ownership_handler :
    ∃ s s', s.svclocked 2 = some 2 ∧ LocksRight s ∧ TerminatedRight s s' 2 ∧
    LocksRight s' ∧ Returns (fun fuel => s.tkTerTsk fuel 1 true 2 E_OK false) (E_OK, s') := by
  obtain ⟨s, run, -, hctx, hstate, -, h₂, -⟩ := svcRun_two SvcOp.OwnLocks fun _ _ h => h
  have hter : Terminates s 1 true 2 E_OK false := by
    refine ⟨fun h => absurd h.1 (by decide), ?_, rfl, rfl⟩
    rw [hstate]
    exact ⟨by decide, by decide⟩
  obtain ⟨hright, hends⟩ := svcRun_ownership run
  obtain ⟨s', hs', hright', hret⟩ := (hends 1 true 2 E_OK false hter).1 (Or.inr hctx)
  exact ⟨s, s', h₂, hright, hs', hright', hret⟩

/-- Task 1 terminates task 2. It loses its own lock, and task 2 keeps one that nobody can free any
more. -/
theorem svcRun_terminated_keeps_lock :
    ∃ s s', SvcRun 2 (fun _ _ => True) s ∧ Terminates s 0 false 2 E_OK false ∧
    Returns (fun fuel => s.tkTerTsk fuel 0 false 2 E_OK false) (E_OK, s') ∧
    s'.svclocked 2 = some 2 ∧ s.Holds 1 1 ∧
      ¬s'.Holds 1 1 ∧ ¬TerminatedRight s s' 2 ∧ ¬LocksRight s' := by
  obtain ⟨s, run, hctx, -, hstate, h₁, h₂, hl₁, hq₁, hq₂⟩ :=
    svcRun_two (fun _ _ => True) fun _ _ _ => trivial
  have hter : Terminates s 0 false 2 E_OK false := by
    refine ⟨fun h => ?_, ?_, rfl, rfl⟩
    · rw [hctx] at h
      exact absurd h.2 (by decide)
    · rw [hstate]
      exact ⟨by decide, by decide⟩
  let s₁ : SvcState := { s with
    svclocked := Function.update s.svclocked 1 none
    wtskq := Function.update s.wtskq 1 none }
  have hrel : s.releaseLock 1 1 = some s₁ := by
    unfold SvcState.releaseLock SvcState.passLock
    dsimp only
    rw [hq₁, hl₁]
    rfl
  have h₁' : s₁.svclocked 1 = none := rfl
  have hall (fuel : ℕ) : SvcState.allUnlockSvc 0 (fuel + 2) s = some s₁ := by
    rw [allUnlockSvc_turn hctx h₁ hrel, SvcState.allUnlockSvc, show s₁.ctxtsk 0 = some 1 from hctx,
      Option.bind_some, h₁']
  have h₂' : s₁.svclocked 2 = some 2 := h₂
  have hend : (s₁.leaveLockQueue 2).svclocked = s₁.svclocked := (leaveLockQueue_frame s₁ 2).2.2.1
  have hright : ¬TerminatedRight s ((s₁.leaveLockQueue 2).makeDormant 2) 2 := fun h => by
    have hnone : (s₁.leaveLockQueue 2).svclocked 2 = none := h.none
    rw [hend, h₂'] at hnone
    exact absurd hnone (by decide)
  refine ⟨s, (s₁.leaveLockQueue 2).makeDormant 2, run, hter, ⟨2, fun fuel hfuel => ?_⟩, ?_,
    ⟨[1], by rw [h₁]; exact ⟨rfl, hl₁⟩, List.mem_singleton_self 1⟩, ?_, hright, ?_⟩
  · obtain ⟨fuel, rfl⟩ := Nat.exists_eq_add_of_le' hfuel
    dsimp only
    rw [tkTerTsk_eq hter, SvcState.terTsk, if_pos (by rw [h₂]; decide), hall, Option.map_some,
      if_pos (show s₁.state 2 = .ready from hstate)]
    rfl
  · exact (congrFun hend 2).trans h₂'
  · rintro ⟨ls, hls, hl⟩
    have hnone : (s₁.leaveLockQueue 2).svclocked 1 = none := by
      rw [hend, h₁']
    have htop : (s₁.leaveLockQueue 2).svclocked 1 = ls.head? := hls.top
    rw [hnone] at htop
    rw [List.head?_eq_none_iff.mp htop.symm] at hl
    exact List.not_mem_nil hl
  · rintro ⟨held, hstack, hmark, halive⟩
    have htop : (s₁.leaveLockQueue 2).svclocked 2 = (held 2).head? := (hstack 2).top
    rw [hend, h₂'] at htop
    have hheld : 2 ∈ held 2 := List.mem_of_mem_head? htop.symm
    obtain ⟨t, ht, hone, hother⟩ := halive 2 (hmark 2 2 hheld)
    by_cases h : t = 2
    · subst h
      exact ht.2 rfl
    · exact hother 2 (Ne.symm h) hheld

end SmpTKernel
