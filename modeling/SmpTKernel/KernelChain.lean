import SmpTKernel.KernelCeilingRuns
import SmpTKernel.Lib.Descent

/-!
# The calls of `change_task_priority` come to an end

A task that waits for a mutex with inheritance hands its new priority on to the holder: either the
holder is raised to it, or the holder had the old priority of the task and its priority is computed
again. There is an end also where the holders wait for each other, and whatever the queues and the
lists of the mutexes look like: a priority that is raised is handed on to lower tasks only, and as
long as it is lowered, the old priority becomes rarer.
-/

namespace SmpTKernel

open Kern

variable {s s' : Kern} {t u : Tsk} {m : ID} {served p p' : ℕ} {F : Finset Tsk}

namespace Kern

/-- All tasks but finitely many do not exist. -/
def Few (s : Kern) : Prop := ∃ F : Finset Tsk, ∀ t, t ∉ F → (s.tcb t).state = .nonexist

/-- What is left to do after so many changes of priority. -/
def rest (served : ℕ) : ℕ → Kern × Option (Tsk × ℕ) → Option (Tsk × ℕ)
  | 0, r => r.2
  | depth + 1, r =>
    match r.2 with
    | none => none
    | some (t, priority) => rest served depth (r.1.changePriority t served priority)

/-- After some number of changes nothing is left to do. -/
def Finishes (served : ℕ) (r : Kern × Option (Tsk × ℕ)) : Prop :=
  ∃ depth, rest served depth r = none

def IsInherit (s : Kern) (m : ID) : Prop :=
  ((s.objatr (.mtx, m)).getD 0) &&& TA_CEILING = TA_INHERIT

/-- The priority that `reset_priority` computes. -/
def resetPri (s : Kern) (t : Tsk) : ℕ :=
  s.heldPri (s.tcb t).mtxlist (s.tcb t).bpriority (s.tcb t).bpriority

/-- A waiting task gets the priority and its place in the queue of the mutex. -/
def moved (s : Kern) (t : Tsk) (m : ID) (priority : ℕ) : Kern :=
  ((s.upd t fun c => { c with priority := priority }).touch t).requeue t (.mtx, m)

end Kern

theorem finishes_none {r : Kern × Option (Tsk × ℕ)} (h : r.2 = none) : Finishes served r := ⟨0, h⟩

theorem finishes_next (h : Finishes served (s.changePriority t served p)) :
    Finishes served (s, some (t, p)) := by
  obtain ⟨depth, h⟩ := h
  exact ⟨depth + 1, h⟩

theorem rest_mono {n k : ℕ} {r : Kern × Option (Tsk × ℕ)} (h : rest served n r = none)
    (hk : n ≤ k) :
    rest served k r = none := by
  induction n generalizing r k with
  | zero =>
    have hr : r.2 = none := h
    cases k with
    | zero => exact hr
    | succ k =>
      unfold rest
      rw [hr]
  | succ n ih =>
    obtain ⟨k, rfl⟩ := Nat.exists_eq_add_of_le' hk
    rw [← Nat.add_assoc] at *
    unfold rest at h ⊢
    split
    · rfl
    · next t p hr =>
      rw [hr] at h
      exact ih h (Nat.le_add_left n k)

theorem releaseMutex_none_eq (s : Kern) (t : Tsk) :
    s.releaseMutex t none = (s, if s.resetPri t ≠ s.pri t then
      some (t, s.resetPri t) else none) := by
  refine Prod.ext (releaseMutex_none s t) ?_
  have h := releaseMutex_none s t
  unfold releaseMutex at h ⊢
  dsimp only at h ⊢
  rw [h]
  rfl

/-! ## One change of priority -/

theorem moved_tcb : (s.moved t m p).tcb = (s.upd t fun c => { c with priority := p }).tcb := rfl

theorem moved_pri : (s.moved t m p).pri = Function.update s.pri t p := by
  funext u
  unfold pri
  rw [moved_tcb, upd_tcb, Function.update_apply]
  split_ifs <;> rfl

theorem moved_pri_of_ne (hu : u ≠ t) : (s.moved t m p).pri u = s.pri u := by
  rw [moved_pri, Function.update_of_ne hu]

theorem moved_mtxlist : ((s.moved t m p).tcb u).mtxlist = (s.tcb u).mtxlist ∧
    ((s.moved t m p).tcb u).bpriority = (s.tcb u).bpriority ∧
    ((s.moved t m p).tcb u).state = (s.tcb u).state ∧
    ((s.moved t m p).tcb u).wspec = (s.tcb u).wspec ∧
    ((s.moved t m p).tcb u).wid = (s.tcb u).wid := by
  rw [moved_tcb, upd_tcb]
  split_ifs with hu
  · rw [hu]
    exact ⟨rfl, rfl, rfl, rfl, rfl⟩
  · exact ⟨rfl, rfl, rfl, rfl, rfl⟩

theorem mtxChgPri_next {oldpri : ℕ} (h : (s.mtxChgPri t oldpri).2 = some (u, p')) :
    s.IsInherit (s.tcb t).wid ∧ s.mtxtsk (s.tcb t).wid = some u ∧
      (s.mtxChgPri t oldpri).1 = s.requeue t (.mtx, (s.tcb t).wid) ∧
      (s.pri t < s.pri u ∧ p' = s.pri t ∨ s.pri u ≤ s.pri t ∧ s.pri u = oldpri ∧
        p' = (s.requeue t (.mtx, (s.tcb t).wid)).resetPri u ∧ p' ≠ s.pri u) := by
  unfold mtxChgPri at h ⊢
  dsimp only at h ⊢
  split at h
  · next hinherit =>
    rw [if_pos hinherit]
    split at h
    · cases h
    · next v hv =>
      have hv' : s.mtxtsk (s.tcb t).wid = some v := hv
      split at h
      · next hlt =>
        cases h
        refine ⟨hinherit, hv', ?_, .inl ⟨hlt, rfl⟩⟩
        rw [if_pos hlt]
      · next hle =>
        split at h
        · next hold =>
          rw [releaseMutex_none_eq] at h
          dsimp only at h
          split at h
          · next hne =>
            cases h
            refine ⟨hinherit, hv', ?_, .inr ⟨not_lt.mp hle, hold, rfl, hne⟩⟩
            rw [if_neg hle, if_pos hold, releaseMutex_none]
          · cases h
        · cases h
  · cases h

/-- A change of priority is followed by one of the holder of the mutex that the task waits for: the
holder gets the same priority, or its priority was the old one of the task and is computed again. -/
theorem changePriority_next (h : (s.changePriority t served p).2 = some (u, p')) :
    ∃ m, s.IsInherit m ∧ s.mtxtsk m = some u ∧ s.WaitsMtx t m ∧
      (s.changePriority t served p).1 = s.moved t m p ∧
      (p < (s.moved t m p).pri u ∧ p' = p ∨
        (s.moved t m p).pri u ≤ p ∧ (s.moved t m p).pri u = s.pri t ∧
          p' = (s.moved t m p).resetPri u ∧
          p' ≠ (s.moved t m p).pri u) := by
  have htcb : ((s.upd t fun c => { c with priority := p }).touch t).tcb t =
      { s.tcb t with priority := p } := by
    rw [touch_tcb, upd_self]
  have hpri : ((s.upd t fun c => { c with priority := p }).touch t).pri t = p := by
    unfold pri
    rw [htcb]
  unfold changePriority at h ⊢
  dsimp only at h ⊢
  split at h
  · next hw =>
    rw [if_pos hw]
    have hmtx : ((s.upd t fun c => { c with priority := p }).touch t).chgPriHook t served
      (s.tcb t).priority =
        ((s.upd t fun c => { c with priority := p }).touch t).mtxChgPri t (s.tcb t).priority ∧
        (s.tcb t).wspec.kind = some .mtx := by
      unfold chgPriHook at h ⊢
      rw [htcb] at h ⊢
      dsimp only at h ⊢
      split at h
      · next hspec => exact ⟨rfl, by rw [hspec]; rfl⟩
      · next hspec => exact ⟨rfl, by rw [hspec]; rfl⟩
      · cases h
      · cases h
    rw [hmtx.1] at h ⊢
    obtain ⟨hinherit, hu, hstate, hcases⟩ := mtxChgPri_next h
    rw [htcb] at hw hinherit hu hstate hcases
    rw [hpri] at hcases
    exact ⟨(s.tcb t).wid, hinherit, hu, waitsMtx_of_wspec hw hmtx.2, hstate, hcases⟩
  · cases h

theorem changePriority_follows (h : (s.changePriority t served p).2 = some (u, p')) :
    (s.changePriority t served p).1.pri = Function.update s.pri t p ∧
      Descent.Follows s.pri (Function.update s.pri t p) t p u p' := by
  obtain ⟨m, -, -, -, hstate, hcases⟩ := changePriority_next h
  rw [← moved_pri (m := m)] at *
  refine ⟨by rw [hstate], ?_, ?_⟩
  · rcases hcases with ⟨hlt, rfl⟩ | ⟨-, -, -, hne⟩
    · exact hlt.ne'
    · exact hne.symm
  · exact hcases.imp_right fun h => ⟨h.2.1, h.1⟩

/-! ## The end -/

/-- Only a task that waits hands its priority on, so all tasks on the way are among the ones that
exist. -/
theorem finishes_of_ne (hF : ∀ u, u ∉ F → (s.tcb u).state = .nonexist) (hne : s.pri t ≠ p) :
    Finishes served (s, some (t, p)) := by
  induction hn : Descent.rank F s.pri t p using Nat.strong_induction_on generalizing s t p with
  | _ n ih =>
    refine finishes_next ?_
    cases hr : (s.changePriority t served p).2 with
    | none => exact finishes_none hr
    | some r =>
      obtain ⟨u, p'⟩ := r
      obtain ⟨m, -, -, hw, hstate, -⟩ := changePriority_next hr
      obtain ⟨hpri, hfollows⟩ := changePriority_follows hr
      have ht : t ∈ F := by
        by_contra ht
        exact (alive_of_isWait hw.1).1 (hF t ht)
      have hF' (v : Tsk) (hv : v ∉ F) : ((s.changePriority t served p).1.tcb v).state =
          .nonexist := by
        rw [hstate, moved_mtxlist.2.2.1]
        exact hF v hv
      have hrank := Descent.rank_lt ht hne hfollows
      rw [← hpri, hn] at hrank
      have hfinish := ih _ hrank hF' (by rw [hpri]; exact hfollows.ne) rfl
      rw [← hr] at hfinish
      exact hfinish

/-- The first change may write the priority that the task has; the next one writes another. -/
theorem Kern.Few.finishes (few : s.Few) (t : Tsk) (p : ℕ) : Finishes served (s, some (t, p)) := by
  obtain ⟨F, hF⟩ := few
  refine finishes_next ?_
  cases hr : (s.changePriority t served p).2 with
  | none => exact finishes_none hr
  | some r =>
    obtain ⟨u, p'⟩ := r
    obtain ⟨m, -, -, -, hstate, -⟩ := changePriority_next hr
    obtain ⟨hpri, hfollows⟩ := changePriority_follows hr
    have hfinish : Finishes served ((s.changePriority t served p).1, some (u, p')) := by
      refine finishes_of_ne (F := F) (fun v hv => ?_) (by rw [hpri]; exact hfollows.ne)
      rw [hstate, moved_mtxlist.2.2.1]
      exact hF v hv
    rw [← hr] at hfinish
    exact hfinish

theorem heldPri_congr {ms : List ID} {newpri pri : ℕ}
    (h : ∀ m ∈ ms, ∀ pri, s'.mtxPri m pri = s.mtxPri m pri) :
    s'.heldPri ms newpri pri = s.heldPri ms newpri pri := by
  induction ms generalizing newpri pri with
  | nil => rfl
  | cons m ms ih =>
    unfold heldPri
    rw [h m List.mem_cons_self]
    exact ih fun m' hm' => h m' (List.mem_cons_of_mem m hm')

end SmpTKernel
