import SmpTKernel.KernelChain

/-!
# Propagation of priorities over the runs

Every call of `change_task_priority` in a system call finishes, in every state reached: with hooks
that go deep enough the call does all changes that follow each other, and its result no longer
depends on how deep they go.
-/

namespace SmpTKernel

open Kern

variable {s s' : Kern} {t : Tsk} {m id : ID} {p n d : ℕ}

/-! ## Finitely many tasks -/

/-- A step changes the state of one task. -/
theorem KernStep.state_other {good : Prop} {a b : Option Tsk × Kern} (h : KernStep good a b) :
    ∃ t, ∀ u, u ≠ t → (b.2.tcb u).state = (a.2.tcb u).state := by
  cases h with
  | release t h => exact ⟨t, fun u hu => by rw [waitRelease_of_ne hu]⟩
  | priority t p h =>
    refine ⟨t, fun u hu => ?_⟩
    unfold reprioritize
    dsimp only
    split_ifs
    · split
      · rw [touch_tcb, upd_of_ne hu]
      · rw [requeue, setQueue_tcb, touch_tcb, upd_of_ne hu]
    · rw [touch_tcb, upd_of_ne hu]
  | same h =>
    refine ⟨0, fun u _ => ?_⟩
    have hcore := h.tcb u
    unfold TaskCB.core at hcore
    simp only [TaskCB.mk.injEq] at hcore
    exact hcore.1
  | mask t m h => exact ⟨t, fun _ hu => congrArg TaskCB.state (Function.update_of_ne hu _ _)⟩
  | nonReady t h => exact ⟨t, fun _ hu => congrArg TaskCB.state (Function.update_of_ne hu _ _)⟩
  | cancel t h => exact ⟨t, fun _ hu => congrArg TaskCB.state (Function.update_of_ne hu _ _)⟩
  | stay t h => exact ⟨t, fun _ _ => rfl⟩
  | dormant t => exact ⟨t, fun _ hu => congrArg TaskCB.state (Function.update_of_ne hu _ _)⟩
  | gone t => exact ⟨t, fun _ hu => congrArg TaskCB.state (Function.update_of_ne hu _ _)⟩
  | create t p h =>
    rw [makeDormant, upd_upd]
    exact ⟨t, fun _ hu => congrArg TaskCB.state (Function.update_of_ne hu _ _)⟩
  | delete t h => exact ⟨t, fun _ hu => congrArg TaskCB.state (Function.update_of_ne hu _ _)⟩
  | start t h => exact ⟨t, fun _ hu => congrArg TaskCB.state (Function.update_of_ne hu _ _)⟩
  | register k id atr h => exact ⟨0, fun _ _ => rfl⟩
  | unregister k id h => exact ⟨0, fun _ _ => rfl⟩
  | enter t k id atr tmout runs hatr hmask => exact ⟨t, fun u hu => by rw [gcbMakeWait_of_ne hu]⟩
  | alone t w timed runs hw hrdv hmask => exact ⟨t, fun u hu => by rw [waitAlone_of_ne hu]⟩
  | rdv t atr runs hmask => exact ⟨t, fun u hu => congrArg TaskCB.state (waitAlone_of_ne hu ..)⟩
  | accept u id atr hu hatr hmask =>
    refine ⟨u, fun v hv => ?_⟩
    change (((Kern.waitCancel _ u).setWait u .rdv 0).tcb v).state = _
    rw [setWait, upd_of_ne hv, waitCancel, queRemove_tcb, upd_of_ne hv]
  | forward u id atr hw hrdv hatr hmask =>
    exact ⟨u, fun v hv => by simp [toCal, setWait, enqueue, upd_of_ne hv]⟩
  | newRdv u atr hw hrdv hmask =>
    exact ⟨u, fun _ hu => congrArg TaskCB.state (Function.update_of_ne hu _ _)⟩
  | suspend t h h' hmax =>
    rw [suspendTask_eq]
    exact ⟨t, fun _ hu => congrArg TaskCB.state (Function.update_of_ne hu _ _)⟩
  | resume t h =>
    rw [resumeTask_eq]
    exact ⟨t, fun _ hu => congrArg TaskCB.state (Function.update_of_ne hu _ _)⟩
  | force t h =>
    rw [forceTask_eq]
    exact ⟨t, fun _ hu => congrArg TaskCB.state (Function.update_of_ne hu _ _)⟩
  | sleep t h => exact ⟨t, fun _ hu => congrArg TaskCB.state (Function.update_of_ne hu _ _)⟩
  | wake t h hd => exact ⟨t, fun _ hu => congrArg TaskCB.state (Function.update_of_ne hu _ _)⟩
  | awake t => exact ⟨t, fun _ _ => rfl⟩
  | clear t => exact ⟨t, fun _ hu => congrArg TaskCB.state (Function.update_of_ne hu _ _)⟩

theorem KernSteps.few {good : Prop} {a b : Option Tsk × Kern} (few : a.2.Few)
    (h : KernSteps good a b) : b.2.Few := by
  induction h with
  | refl => exact few
  | tail _ h ih =>
    obtain ⟨F, hF⟩ := ih
    obtain ⟨t, ht⟩ := h.state_other
    refine ⟨insert t F, fun u hu => ?_⟩
    rw [Finset.mem_insert, not_or] at hu
    exact (ht u hu.1).trans (hF u hu.2)

theorem CeilRun.few {clear : Prop} (run : CeilRun clear s) : s.Few := by
  induction run with
  | init s initial => exact ⟨∅, fun t _ => initial.state t⟩
  | @step s run op runs fits _ ih =>
    cases op with
    | call op => exact KernSteps.few ih (run.link.exec_steps runs fits nofun)
    | brkEnter t u h => exact @KernSteps.few False (none, s) _ ih (brkEnter_steps t u h)
    | brkLeave t h => exact @KernSteps.few False (none, s) _ ih (brkLeave_steps t h)

theorem IsInherit.registered (hi : s.IsInherit m) : s.objatr (.mtx, m) ≠ none := fun e => by
  unfold IsInherit at hi
  rw [e] at hi
  cases hi

theorem Kern.Few.of_tcb (few : s.Few) (h : ∀ u, u ≠ t → s'.tcb u = s.tcb u) : s'.Few := by
  obtain ⟨F, hF⟩ := few
  refine ⟨insert t F, fun u hu => ?_⟩
  rw [Finset.mem_insert, not_or] at hu
  rw [h u hu.1]
  exact hF u hu.2

theorem Kern.Few.upd (few : s.Few) (t : Tsk) (f : TaskCB → TaskCB) : (s.upd t f).Few :=
  few.of_tcb fun _ hu => upd_of_ne hu

theorem Kern.Few.release (few : s.Few) (t : Tsk) : (s.waitRelease t).Few :=
  few.of_tcb fun _ hu => waitRelease_of_ne hu

/-! ## The calls of `change_task_priority` in a system call -/

namespace Kern

/-- No change of priority is left over: the hooks go deep enough. -/
def Done (h : Hook) (r : Kern × Option (Tsk × ℕ)) : Prop := rest h.served h.depth r = none

def RelWaiDone (s : Kern) (t : Tsk) (h : Hook) : Prop :=
  (s.tcb t).wspec = .mtxInherit → Done h (s.mtxRelWai t)

def PassDone (s : Kern) (h : Hook) (m : ID) : Prop :=
  match s.queue (.mtx, m) with
  | [] => True
  | next :: _ => Done h ((s.waitRelease next).holdMutex next m, some (next, s.ceilpri m))

def SignalDone (h : Hook) : List ID → Kern → Prop
  | [], _ => True
  | m :: ms, s => s.PassDone h m ∧ SignalDone h ms (s.passMutex h m)

def TerDone (s : Kern) (t : Tsk) (h : Hook) : Prop :=
  ((s.tcb t).state.isWait → (s.waitCancel t).RelWaiDone t h) ∧
    SignalDone h ((s.terLeave t h).tcb t).mtxlist (s.terLeave t h)

def ReleaseDone (s : Kern) (t : Tsk) (h : Hook) : Prop := (s.waitRelease t).RelWaiDone t h

end Kern

namespace CeilOp

/-- No call of `change_task_priority` in the system call leaves a change of priority over. -/
def Done (s : Kern) : CeilOp → Prop
  | call (.extTsk t h) | call (.exdTsk t h) => s.TerDone t h
  | call (.terTsk t h _) => (s.tcb t).Alive → s.TerDone t h
  | call (.chgPri t h tskpri _) =>
    ∀ limited ∈ s.chgPriMutex t (tskpri.getD (s.tcb t).ipriority),
      Kern.Done h
        (s.upd t fun c => { c with bpriority := tskpri.getD (s.tcb t).ipriority },
          some (t, limited))
  | call (.relWai t h _) | call (.timeout t h) => s.ReleaseDone t h
  | call (.disWai t h waitmask _) =>
    (s.upd t fun c => { c with waitmask := waitmask }).ReleaseDone t h
  | call (.acpPor _ h _ _ found _) => ∀ u ∈ found, s.ReleaseDone u h
  | call (.fwdPor h _ u found _) =>
    s.ReleaseDone u h ∧ ∀ v ∈ found, (s.waitRelease v).ReleaseDone u h
  | call (.delMtx h id _) =>
    s.objatr (.mtx, id) ≠ none → ∀ t ∈ s.mtxtsk id, Kern.Done h (s.releaseMutex t (some id))
  | call (.locMtx t h id _ _) =>
    (s.mtxtsk id = none → Kern.Done h (s.holdMutex t id, some (t, s.ceilpri id))) ∧
      ∀ u ∈ s.mtxtsk id, Kern.Done h (s, some (u, (s.tcb t).priority))
  | call (.unlMtx t h id _) =>
    Kern.Done h (s.releaseMutex t (some id)) ∧
      (Kern.chain h.served h.depth (s.releaseMutex t (some id))).PassDone h id
  | brkEnter t u h => Kern.Done h (s, some (t, s.pri u))
  | brkLeave t h =>
    Kern.Done h (s, some (t, (s.chgPriMutex t (s.tcb t).bpriority).getD (E_ILUSE % 256).toNat))
  | _ => True

/-- The same call with hooks that go as deep. -/
def deep (depth : ℕ) : CeilOp → CeilOp
  | call (.extTsk t h) => call (.extTsk t ⟨h.served, depth⟩)
  | call (.exdTsk t h) => call (.exdTsk t ⟨h.served, depth⟩)
  | call (.terTsk t h chk) => call (.terTsk t ⟨h.served, depth⟩ chk)
  | call (.chgPri t h tskpri chk) => call (.chgPri t ⟨h.served, depth⟩ tskpri chk)
  | call (.relWai t h chk) => call (.relWai t ⟨h.served, depth⟩ chk)
  | call (.disWai t h waitmask chk) => call (.disWai t ⟨h.served, depth⟩ waitmask chk)
  | call (.timeout t h) => call (.timeout t ⟨h.served, depth⟩)
  | call (.acpPor t h id tmout found chk) => call (.acpPor t ⟨h.served, depth⟩ id tmout found chk)
  | call (.fwdPor h id u found chk) => call (.fwdPor ⟨h.served, depth⟩ id u found chk)
  | call (.delMtx h id chk) => call (.delMtx ⟨h.served, depth⟩ id chk)
  | call (.locMtx t h id tmout chk) => call (.locMtx t ⟨h.served, depth⟩ id tmout chk)
  | call (.unlMtx t h id chk) => call (.unlMtx t ⟨h.served, depth⟩ id chk)
  | brkEnter t u h => brkEnter t u ⟨h.served, depth⟩
  | brkLeave t h => brkLeave t ⟨h.served, depth⟩
  | op => op

end CeilOp

/-! ## They finish -/

theorem Kern.Finishes.done {served : ℕ} {r : Kern × Option (Tsk × ℕ)} (hr : Finishes served r) :
    ∃ n, ∀ d, n ≤ d → Kern.Done ⟨served, d⟩ r := by
  obtain ⟨n, hn⟩ := hr
  exact ⟨n, fun d hd => rest_mono hn hd⟩

theorem Kern.Few.finishes_release {served : ℕ} (few : s.Few) (t : Tsk) (x : Option ID) :
    Finishes served (s.releaseMutex t x) := by
  unfold releaseMutex
  dsimp only
  split_ifs
  · exact (few.upd t _).finishes t _
  · exact finishes_none rfl

theorem Kern.Few.relWaiDone (few : s.Few) (t : Tsk) (served : ℕ) :
    ∃ n, ∀ d, n ≤ d → s.RelWaiDone t ⟨served, d⟩ := by
  have hfinish : Finishes served (s.mtxRelWai t) := by
    unfold mtxRelWai
    split
    · exact finishes_none rfl
    · split_ifs
      · exact few.finishes_release _ none
      · exact finishes_none rfl
  obtain ⟨n, hn⟩ := hfinish.done
  exact ⟨n, fun d hd _ => hn d hd⟩

theorem Kern.Few.releaseDone (few : s.Few) (t : Tsk) (served : ℕ) :
    ∃ n, ∀ d, n ≤ d → s.ReleaseDone t ⟨served, d⟩ := (few.release t).relWaiDone t served

theorem done_idle {served : ℕ} (ht : (s.tcb t).state.isWait = false) (hd : 1 ≤ d) :
    Done ⟨served, d⟩ (s, some (t, p)) := by
  obtain ⟨d, rfl⟩ := Nat.exists_eq_add_of_le' hd
  have hnone : (s.changePriority t served p).2 = none := by
    unfold changePriority
    rw [if_neg]
    simpa using ht
  have hrest : rest served 0 (s.changePriority t served p) = none := hnone
  show rest served d (s.changePriority t served p) = none
  exact rest_mono hrest (Nat.zero_le d)

/-- The task that gets the mutex does not wait any more. -/
theorem passDone (s : Kern) (served : ℕ) (m : ID) (hd : 1 ≤ d) : s.PassDone ⟨served, d⟩ m := by
  unfold PassDone
  split
  · trivial
  · next u us _ =>
    refine done_idle ?_ hd
    rw [Kern.holdMutex, upd_self]
    change ((s.waitRelease u).tcb u).state.isWait = false
    rw [waitRelease_self, isWait_released]

theorem signalDone (served : ℕ) (hd : 1 ≤ d) (ms : List ID) (s : Kern) :
    SignalDone ⟨served, d⟩ ms s := by
  induction ms generalizing s with
  | nil => trivial
  | cons m ms ih => exact ⟨passDone s served m hd, ih _⟩

theorem Kern.Few.terDone (few : s.Few) (t : Tsk) (served : ℕ) :
    ∃ n, ∀ d, n ≤ d → s.TerDone t ⟨served, d⟩ := by
  have hcancel : (s.waitCancel t).Few :=
    few.of_tcb fun u hu => by rw [waitCancel, queRemove_tcb, upd_of_ne hu]
  obtain ⟨n, hn⟩ := hcancel.relWaiDone t served
  exact ⟨n + 1, fun d hd => ⟨fun _ => hn d (Nat.le_of_succ_le hd), signalDone served
    (Nat.le_of_add_left_le hd) _ _⟩⟩

/-- Depth enough for all calls of a system call. -/
theorem Kern.Few.done (few : s.Few) (op : CeilOp) : ∃ n, ∀ d, n ≤ d → (op.deep d).Done s := by
  cases op with
  | brkEnter t u h => exact (few.finishes t (s.pri u)).done
  | brkLeave t h => exact (few.finishes t _).done
  | call op =>
    cases op with
    | extTsk t h => exact few.terDone t h.served
    | exdTsk t h => exact few.terDone t h.served
    | terTsk t h chk =>
      obtain ⟨n, hn⟩ := few.terDone t h.served
      exact ⟨n, fun d hd _ => hn d hd⟩
    | chgPri t h tskpri chk =>
      cases hl : s.chgPriMutex t (tskpri.getD (s.tcb t).ipriority) with
      | none =>
        refine ⟨0, fun d _ limited hlimited => ?_⟩
        rw [hl] at hlimited
        cases hlimited
      | some limited =>
        have hbase :
          (s.upd t fun c => { c with bpriority := tskpri.getD (s.tcb t).ipriority }).Few :=
            few.upd t _
        have hfinish : Finishes h.served _ := hbase.finishes t limited
        obtain ⟨n, hn⟩ := hfinish.done
        refine ⟨n, fun d hd limited' hlimited => ?_⟩
        rw [hl] at hlimited
        cases hlimited
        exact hn d hd
    | relWai t h chk => exact few.releaseDone t h.served
    | timeout t h => exact few.releaseDone t h.served
    | disWai t h waitmask chk => exact (few.upd t _).releaseDone t h.served
    | acpPor t h id tmout found chk =>
      cases found with
      | none => exact ⟨0, fun d _ => nofun⟩
      | some u =>
        obtain ⟨n, hn⟩ := few.releaseDone u h.served
        refine ⟨n, fun d hd u' hu => ?_⟩
        cases hu
        exact hn d hd
    | fwdPor h id u found chk =>
      obtain ⟨n, hn⟩ := few.releaseDone u h.served
      cases found with
      | none => exact ⟨n, fun d hd => ⟨hn d hd, nofun⟩⟩
      | some v =>
        obtain ⟨n', hn'⟩ := (few.release v).releaseDone u h.served
        refine ⟨max n n', fun d hd => ⟨hn d (le_of_max_le_left hd), fun v' hv => ?_⟩⟩
        cases hv
        exact hn' d (le_of_max_le_right hd)
    | delMtx h id chk =>
      cases hid : s.mtxtsk id with
      | none =>
        refine ⟨0, fun d _ _ o ho => ?_⟩
        rw [hid] at ho
        cases ho
      | some o =>
        have hfinish : Finishes h.served (s.releaseMutex o (some id)) := few.finishes_release o _
        obtain ⟨n, hn⟩ := hfinish.done
        refine ⟨n, fun d hd _ o' ho => ?_⟩
        rw [hid] at ho
        cases ho
        exact hn d hd
    | locMtx t h id tmout chk =>
      have hheld : (s.holdMutex t id).Few := few.of_tcb fun _ hu => upd_of_ne hu
      have hfinish : Finishes h.served _ := hheld.finishes t (s.ceilpri id)
      obtain ⟨n, hn⟩ := hfinish.done
      cases hid : s.mtxtsk id with
      | none =>
        refine ⟨n, fun d hd => ⟨fun _ => hn d hd, fun o ho => ?_⟩⟩
        rw [hid] at ho
        cases ho
      | some o =>
        have hfinish : Finishes h.served _ := few.finishes o (s.tcb t).priority
        obtain ⟨n', hn'⟩ := hfinish.done
        refine ⟨n', fun d hd => ⟨fun hnone => ?_, fun o' ho => ?_⟩⟩
        · rw [hid] at hnone
          cases hnone
        · rw [hid] at ho
          cases ho
          exact hn' d hd
    | unlMtx t h id chk =>
      have hfinish : Finishes h.served (s.releaseMutex t (some id)) := few.finishes_release t _
      obtain ⟨n, hn⟩ := hfinish.done
      exact ⟨n + 1, fun d hd =>
        ⟨hn d (Nat.le_of_succ_le hd), passDone _ _ _ (Nat.le_of_add_left_le hd)⟩⟩
    | _ => exact ⟨0, fun _ _ => trivial⟩

/-! ## Deeper hooks make no difference -/

theorem chain_deep {served : ℕ} {r : Kern × Option (Tsk × ℕ)} (hr : rest served n r = none)
    (hd : n ≤ d) :
    chain served d r = chain served n r := by
  induction n generalizing r d with
  | zero =>
    have hnone : r.2 = none := hr
    cases d with
    | zero => rfl
    | succ d =>
      unfold chain
      rw [hnone]
  | succ n ih =>
    obtain ⟨d, rfl⟩ := Nat.exists_eq_add_of_le' hd
    rw [← Nat.add_assoc]
    unfold rest at hr
    unfold chain
    split
    · rfl
    · next t p h =>
      rw [h] at hr
      exact ih hr (Nat.le_add_left n d)

variable {served : ℕ}

theorem changeTaskPriority_deep (hr : Done ⟨served, n⟩ (s, some (t, p))) (hd : n ≤ d) :
    s.changeTaskPriority t ⟨served, d⟩ p = s.changeTaskPriority t ⟨served, n⟩ p := chain_deep hr hd

theorem relWaiHook_deep (hr : s.RelWaiDone t ⟨served, n⟩) (hd : n ≤ d) :
    s.relWaiHook t ⟨served, d⟩ = s.relWaiHook t ⟨served, n⟩ := by
  unfold relWaiHook
  split
  · rfl
  · next hspec => exact chain_deep (hr hspec) hd
  · rfl

theorem waitReleaseNg_deep (hr : s.ReleaseDone t ⟨served, n⟩) (hd : n ≤ d) :
    s.waitReleaseNg t ⟨served, d⟩ = s.waitReleaseNg t ⟨served, n⟩ := relWaiHook_deep hr hd

theorem passMutex_deep (hr : s.PassDone ⟨served, n⟩ m) (hd : n ≤ d) :
    s.passMutex ⟨served, d⟩ m = s.passMutex ⟨served, n⟩ m := by
  unfold PassDone at hr
  unfold passMutex
  split
  · rfl
  · next u us hq =>
    rw [hq] at hr
    have hceil : ((s.waitRelease u).holdMutex u m).ceilpri = s.ceilpri := by
      unfold Kern.holdMutex
      rw [waitRelease_eq]
      rfl
    dsimp only
    rw [hceil]
    split_ifs
    · exact changeTaskPriority_deep hr hd
    · rfl

theorem signal_deep (ms : List ID) (s : Kern) (hr : SignalDone ⟨served, n⟩ ms s) (hd : n ≤ d) :
    ms.foldl (fun s m => s.passMutex ⟨served, d⟩ m) s = ms.foldl (fun s m =>
      s.passMutex ⟨served, n⟩ m) s := by
  induction ms generalizing s with
  | nil => rfl
  | cons m ms ih =>
    rw [List.foldl_cons, List.foldl_cons, passMutex_deep hr.1 hd]
    exact ih _ hr.2

theorem terTask_deep (hr : s.TerDone t ⟨served, n⟩) (hd : n ≤ d) :
    s.terTask t ⟨served, d⟩ = s.terTask t ⟨served, n⟩ := by
  have hleave : s.terLeave t ⟨served, d⟩ = s.terLeave t ⟨served, n⟩ := by
    unfold terLeave
    split_ifs with _ hw
    · rfl
    · exact relWaiHook_deep (hr.1 hw) hd
    · rfl
  unfold terTask signalAllMutex
  rw [hleave]
  exact signal_deep _ _ hr.2 hd

/-- What a call on a task does, from what it does after its checks. -/
theorem onTask_congr {chk dormant : ER} {call call' : Kern × Option ER}
    (h : (s.tcb t).state ≠ .nonexist → ((s.tcb t).state = .dormant → dormant = E_OK) →
      call.1 = call'.1) :
    (s.onTask t chk dormant call).1 = (s.onTask t chk dormant call').1 := by
  unfold onTask checked
  split_ifs with _ hn hdormant
  · rfl
  · rfl
  · rfl
  · exact h hn fun hd => not_not.mp fun hne => hdormant ⟨hd, hne⟩

theorem onObj_congr {k : ObjKind} {chk : ER} {call call' : ℕ → Kern × Option ER}
    (h : ∀ atr, s.objatr (k, id) = some atr → (call atr).1 = (call' atr).1) :
    (s.onObj k id chk call).1 = (s.onObj k id chk call').1 := by
  unfold onObj checked
  split_ifs
  · rfl
  · split
    · rfl
    · next atr hatr => exact h atr hatr

theorem exec_deep (op : CeilOp) (hr : (op.deep n).Done s) (hd : n ≤ d) :
    (op.deep d).exec s = (op.deep n).exec s := by
  cases op with
  | brkEnter t u h =>
    change s.brkEnter t u _ = s.brkEnter t u _
    unfold Kern.brkEnter
    split_ifs
    · exact changeTaskPriority_deep hr hd
    · rfl
  | brkLeave t h =>
    change s.brkLeave t _ = s.brkLeave t _
    unfold Kern.brkLeave
    dsimp only
    split_ifs
    · exact changeTaskPriority_deep hr hd
    · rfl
  | call op =>
    cases op with
    | extTsk t h => exact congrArg (Kern.makeDormant · t) (terTask_deep hr hd)
    | exdTsk t h => exact congrArg (Kern.upd · t fun c =>
        { c with state := .nonexist }) (terTask_deep hr hd)
    | terTsk t h chk =>
      refine onTask_congr fun hn hdormant => congrArg (Kern.makeDormant · t)
        (terTask_deep (hr ⟨hn, fun hs => ?_⟩) hd)
      exact absurd (hdormant hs) (by decide)
    | chgPri t h tskpri chk =>
      refine onTask_congr fun _ _ => ?_
      dsimp only
      split
      · rfl
      · next limited hl => exact changeTaskPriority_deep (hr limited hl) hd
    | relWai t h chk =>
      refine onTask_congr fun _ _ => ?_
      split_ifs
      · exact waitReleaseNg_deep hr hd
      · rfl
    | disWai t h waitmask chk =>
      refine onTask_congr fun _ _ => ?_
      dsimp only
      split_ifs
      · exact waitReleaseNg_deep hr hd
      · rfl
      · rfl
    | timeout t h => exact waitReleaseNg_deep hr hd
    | acpPor t h id tmout found chk =>
      refine onObj_congr fun _ _ => ?_
      split
      · rfl
      · split
        · rfl
        · next u =>
          split_ifs
          · exact waitReleaseNg_deep (hr u rfl) hd
          · rfl
    | fwdPor h id u found chk =>
      refine onObj_congr fun _ _ => ?_
      split_ifs
      · rfl
      · exact waitReleaseNg_deep hr.1 hd
      · split
        · rfl
        · next v =>
          dsimp only
          split_ifs
          · exact waitReleaseNg_deep (hr.2 v rfl) hd
          · rfl
    | delMtx h id chk =>
      refine onObj_congr fun atr hatr => ?_
      split
      · rfl
      · next o ho =>
          exact congrArg (Kern.deleted · .mtx id) (chain_deep (hr (by rw [hatr]; nofun) o ho) hd)
    | locMtx t h id tmout chk =>
      refine onObj_congr fun atr _ => ?_
      split
      · rfl
      split
      · rfl
      split
      · rfl
      · split
        · next hid =>
          dsimp only
          unfold takeMutex
          dsimp only
          split_ifs
          · exact changeTaskPriority_deep (hr.1 hid) hd
          · rfl
        · next o ho =>
          split
          · rfl
          · refine congrArg (Kern.gcbMakeWait · t .mtx id atr tmout) ?_
            unfold raiseHolder
            split_ifs
            · exact changeTaskPriority_deep (hr.2 o ho) hd
            · rfl
    | unlMtx t h id chk =>
      refine onObj_congr fun _ _ => ?_
      split_ifs
      · rfl
      · dsimp only
        rw [chain_deep hr.1 hd]
        exact passMutex_deep hr.2 hd
    | _ => rfl

/-- In every state reached, whatever tasks hold and wait for, there is a depth from which on no call
of `change_task_priority` in a system call leaves a change of priority over, and the call does the
same at any depth. -/
theorem ceilRun_finishes (run : CeilRun False s) (op : CeilOp) :
    ∃ n, ∀ d, n ≤ d → (op.deep d).Done s ∧ (op.deep d).exec s = (op.deep n).exec s := by
  obtain ⟨n, hn⟩ := run.few.done op
  exact ⟨n, fun d hd => ⟨hn d hd, exec_deep op (hn n le_rfl) hd⟩⟩

/-- Two tasks wait for each other's mutex. -/
def deadlockRun : List KernOp :=
  [.creTsk 1 30 0, .creTsk 2 20 0, .staTsk 1 0, .staTsk 2 0, .creMtx 1 TA_INHERIT 0 0,
    .creMtx 2 TA_INHERIT 0 0, .locMtx 1 ⟨0, 9⟩ 1 TMO_FEVR 0, .locMtx 2 ⟨0, 9⟩ 2 TMO_FEVR 0,
    .locMtx 2 ⟨0, 9⟩ 1 TMO_FEVR 0, .locMtx 1 ⟨0, 9⟩ 2 TMO_FEVR 0]

theorem ceilRun_deadlockRun : CeilRun False (execAll deadlockRun boot) := by
  have run : KernRun (fun _ _ => True) (execAll deadlockRun boot) :=
    (KernRun.init boot boot_initial).all (by decide +kernel)
  exact run.ceilRun

/-- The priority of one of them is raised. -/
theorem ceilRun_finishes_deadlock :
    (((execAll deadlockRun boot).tcb 1).state = .wait ∧
      ((execAll deadlockRun boot).tcb 2).state = .wait) ∧
      ∃ n, ∀ d, n ≤ d → ((CeilOp.call (.chgPri 1 ⟨0, 0⟩ (some 3) 0)).deep d).Done
        (execAll deadlockRun boot) ∧
        ((CeilOp.call (.chgPri 1 ⟨0, 0⟩ (some 3) 0)).deep d).exec (execAll deadlockRun boot) =
          ((CeilOp.call (.chgPri 1 ⟨0, 0⟩ (some 3) 0)).deep n).exec (execAll deadlockRun boot) :=
  ⟨by decide +kernel, ceilRun_finishes ceilRun_deadlockRun (.call (.chgPri 1 ⟨0, 0⟩ (some 3) 0))⟩

end SmpTKernel
