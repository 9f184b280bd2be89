import SmpTKernel.DeviceSuspend
import Mathlib.Algebra.BigOperators.Fin
import Mathlib.Tactic.Ring

/-!
# Runs of suspend requests

`DisSusCnt` counts the requests of all resource groups, and those that were forgotten with a
resource control block. None is forgotten when the resource groups come and go in order.
-/

namespace SmpTKernel

open Function

variable {T R : Type} {s : SusSys T R} {lost : ℤ} {r : R} {orderly : Prop}

@[simp]
theorem SusSys.setRescb_self [DecidableEq R] (s : SusSys T R) (r : R) (rescb : ResCB) :
    (s.setRescb r rescb).rescb r = rescb := update_self ..

theorem SusSys.setRescb_of_ne [DecidableEq R] (s : SusSys T R) (rescb : ResCB) {i : R} (h : i ≠ r) :
    (s.setRescb r rescb).rescb i = s.rescb i := update_of_ne h ..

/-! ## The count -/

section Count

variable [Fintype R]

/-- All requests that the resource groups have. -/
def SusSys.requests (s : SusSys T R) : ℤ := ∑ r, (s.rescb r).dissus

theorem requests_setRescb [DecidableEq R] (s : SusSys T R) (r : R) (rescb : ResCB) :
    (s.setRescb r rescb).requests = s.requests - (s.rescb r).dissus + rescb.dissus := by
  unfold SusSys.requests
  have hrest : ∑ i ∈ Finset.univ.erase r, ((s.setRescb r rescb).rescb i).dissus =
      ∑ i ∈ Finset.univ.erase r, (s.rescb i).dissus := by
    refine Finset.sum_congr rfl fun i hi => ?_
    rw [s.setRescb_of_ne rescb (Finset.ne_of_mem_erase hi)]
  rw [← Finset.add_sum_erase _ _ (Finset.mem_univ r), ← Finset.add_sum_erase _ _
    (Finset.mem_univ r), hrest, s.setRescb_self]
  ring

/-- `DisSusCnt` counts the requests of all resource groups, and those that were forgotten. -/
structure SusInv (s : SusSys T R) (lost : ℤ) : Prop where
  nonneg : ∀ r, 0 ≤ (s.rescb r).dissus
  lost_nonneg : 0 ≤ lost
  count : s.DisSusCnt = s.requests + lost
  max : s.DisSusCnt ≤ MAX_DISSUS

theorem susInv_start : SusInv (.start : SusSys T R) 0 :=
  ⟨fun _ => le_rfl, le_rfl, by simp [SusSys.requests, SusSys.start],
    (by decide : (0 : ℤ) ≤ MAX_DISSUS)⟩

namespace SusInv

variable (inv : SusInv s lost)
include inv

/-- One resource group and `DisSusCnt` are changed, and `gone` requests are forgotten. -/
theorem setRescb [DecidableEq R] (rescb : ResCB) {cnt gone : ℤ} (hr : 0 ≤ rescb.dissus)
    (hgone : 0 ≤ gone) (hcnt : cnt = s.DisSusCnt - (s.rescb r).dissus + rescb.dissus + gone)
    (hmax : cnt ≤ MAX_DISSUS) (got : T → Option R) (cleaning : R → ℕ) :
    SusInv { s.setRescb r rescb with DisSusCnt := cnt, got := got, cleaning := cleaning }
      (lost + gone) := by
  refine ⟨fun i => ?_, add_nonneg inv.lost_nonneg hgone, ?_, hmax⟩
  · change 0 ≤ ((s.setRescb r rescb).rescb i).dissus
    by_cases hi : i = r
    · rwa [hi, s.setRescb_self]
    · rw [s.setRescb_of_ne rescb hi]
      exact inv.nonneg i
  · change cnt = (s.setRescb r rescb).requests + (lost + gone)
    rw [requests_setRescb, hcnt, inv.count]
    ring

theorem same (got : T → Option R) (cleaning : R → ℕ) :
    SusInv { s with got := got, cleaning := cleaning } (lost + 0) := by
  rw [add_zero]
  exact ⟨inv.nonneg, inv.lost_nonneg, inv.count, inv.max⟩

theorem exec [DecidableEq T] [DecidableEq R] (step : SusStep T R) :
    SusInv (step.exec s) (lost + step.forgotten s) := by
  have hcnt := inv.max
  cases step with
  | getResCB t rescb =>
    cases rescb with
    | none => exact inv.same s.got s.cleaning
    | some r =>
      exact inv.setRescb { s.rescb r with openq := true } (inv.nonneg r) le_rfl (by ring) hcnt _ _
  | susDev t mode =>
    change SusInv _ (lost + 0)
    simp only [SusStep.exec]
    split
    · exact inv.same _ _
    · next r hr =>
      have hdis := inv.nonneg r
      unfold SusSys.susDev
      split_ifs
      · exact inv.same _ _
      · exact inv.same _ _
      · exact inv.same _ _
      · exact inv.setRescb _ (show 0 ≤ (s.rescb r).dissus + 1 by omega) le_rfl (by ring)
          (show s.DisSusCnt + 1 ≤ MAX_DISSUS by omega) _ _
      · exact inv.setRescb _ (show 0 ≤ (s.rescb r).dissus - 1 by omega) le_rfl (by ring)
          (show s.DisSusCnt - 1 ≤ MAX_DISSUS by omega) _ _
      · exact inv.same _ _
      · exact inv.same _ _
      · exact inv.same _ _
  | devmgrStartup r => exact inv.setRescb _ le_rfl (inv.nonneg r) (by ring) hcnt _ _
  | devmgrCleanup r looked =>
    have hdis := inv.nonneg r
    change SusInv _ (lost + 0)
    simp only [SusStep.exec, SusSys.devmgrCleanup]
    split_ifs
    · exact inv.same _ _
    · exact inv.setRescb _ le_rfl le_rfl (by ring) (show s.DisSusCnt - (s.rescb r).dissus ≤
        MAX_DISSUS by omega) _ _
  | cleanResblk r => exact inv.setRescb _ le_rfl (inv.nonneg r) (by ring) hcnt _ _

end SusInv

theorem SusRun.inv [DecidableEq T] [DecidableEq R] (run : SusRun orderly s lost) :
    SusInv s lost := by
  induction run with
  | start => exact susInv_start
  | step run step enabled h ih => exact ih.exec step

end Count

/-! ## Resource groups that come and go in order -/

/-- A resource control block that is not in use has no requests, and one that is being cleaned is
used by no task. -/
structure SusCalm (s : SusSys T R) : Prop where
  unused : ∀ r, (s.rescb r).openq = false → (s.rescb r).dissus = 0
  got : ∀ t r, s.got t = some r → (s.rescb r).openq = true ∧ s.cleaning r = 0
  cleaning : ∀ r, 0 < s.cleaning r → (s.rescb r).dissus = 0

theorem susCalm_start : SusCalm (.start : SusSys T R) :=
  ⟨fun _ _ => rfl, fun _ _ h => (Option.some_ne_none _ h.symm).elim, fun _ _ => rfl⟩

namespace SusCalm

variable (calm : SusCalm s)
include calm

theorem forgotten {step : SusStep T R} (enabled : step.Enabled s) (h : step.Orderly s) :
    step.forgotten s = 0 := by
  cases step with
  | getResCB t rescb => rfl
  | susDev t mode => rfl
  | devmgrStartup r => exact calm.unused r h
  | devmgrCleanup r looked => rfl
  | cleanResblk r => exact calm.cleaning r enabled

/-- One resource group is changed. -/
theorem changes [DecidableEq R] {rescb : ResCB} {cnt : ℤ} {got : T → Option R} {cleaning : R → ℕ}
    (hunused : rescb.openq = false → rescb.dissus = 0)
    (hgot : ∀ t, got t = some r → rescb.openq = true ∧ cleaning r = 0)
    (hcleaning : 0 < cleaning r → rescb.dissus = 0)
    (hothers : ∀ t i, i ≠ r → got t = some i → s.got t = some i)
    (hclean : ∀ i, i ≠ r → cleaning i = s.cleaning i) :
    SusCalm { s.setRescb r rescb with DisSusCnt := cnt, got := got, cleaning := cleaning } := by
  refine ⟨fun i hi => ?_, fun t i hi => ?_, fun i hi => ?_⟩
  · change ((s.setRescb r rescb).rescb i).openq = false at hi
    change ((s.setRescb r rescb).rescb i).dissus = 0
    by_cases hir : i = r
    · rw [hir, s.setRescb_self] at hi ⊢
      exact hunused hi
    · rw [s.setRescb_of_ne rescb hir] at hi ⊢
      exact calm.unused i hi
  · change ((s.setRescb r rescb).rescb i).openq = true ∧ cleaning i = 0
    by_cases hir : i = r
    · rw [hir, s.setRescb_self]
      exact hgot t (hir ▸ hi)
    · rw [s.setRescb_of_ne rescb hir, hclean i hir]
      exact calm.got t i (hothers t i hir hi)
  · change 0 < cleaning i at hi
    change ((s.setRescb r rescb).rescb i).dissus = 0
    by_cases hir : i = r
    · rw [hir, s.setRescb_self]
      exact hcleaning (hir ▸ hi)
    · rw [s.setRescb_of_ne rescb hir]
      exact calm.cleaning i (hclean i hir ▸ hi)

/-- A task gets the resource control block, or a task that has it uses it. -/
theorem setRescb [DecidableEq R] {rescb : ResCB} {cnt : ℤ} {got : T → Option R}
    (hopen : rescb.openq = true) (hr : s.cleaning r = 0)
    (hgot : ∀ t' r', got t' = some r' → r' = r ∨ s.got t' = some r') :
    SusCalm { s.setRescb r rescb with DisSusCnt := cnt, got := got } := by
  refine calm.changes (fun h => ?_) (fun _ _ => ⟨hopen, hr⟩) (fun h => absurd hr h.ne')
    (fun t i hir hi => (hgot t i hi).resolve_left hir) fun _ _ => rfl
  rw [hopen] at h
  cases h

theorem clear [DecidableEq R] (rescb : ResCB) (cnt : ℤ) (k : ℕ) (hdis : rescb.dissus = 0)
    (hfree : ∀ t, s.got t = some r → rescb.openq = true ∧ k = 0) :
    SusCalm { s.setRescb r rescb with DisSusCnt := cnt, cleaning := update s.cleaning r k } := by
  refine calm.changes (fun _ => hdis) (fun t ht => ?_) (fun _ => hdis) (fun _ _ _ ht =>
      ht) fun i hir =>
    update_of_ne hir ..
  rw [update_self]
  exact hfree t ht

theorem exec [DecidableEq T] [DecidableEq R] {step : SusStep T R} (enabled : step.Enabled s)
    (h : step.Orderly s) :
    SusCalm (step.exec s) := by
  cases step with
  | getResCB t rescb =>
    cases rescb with
    | none => exact calm
    | some r =>
      refine calm.setRescb rfl (h r rfl) fun t' r' ht' => ?_
      by_cases htt : t' = t
      · rw [htt, update_self] at ht'
        exact .inl (Option.some.inj ht').symm
      · rw [update_of_ne htt] at ht'
        exact .inr ht'
  | susDev t mode =>
    have hgot : ∀ t' r', update s.got t none t' = some r' → s.got t' = some r' :=
      fun t' r' ht' => by
      by_cases htt : t' = t
      · rw [htt, update_self] at ht'
        cases ht'
      · rwa [update_of_ne htt] at ht'
    have hsame : SusCalm { s with got := update s.got t none } :=
      ⟨calm.unused, fun t' r' ht' => calm.got t' r' (hgot t' r' ht'), calm.cleaning⟩
    simp only [SusStep.exec]
    split
    · exact calm
    · next r hr =>
      obtain ⟨hopen, hclean⟩ := calm.got t r hr
      unfold SusSys.susDev
      split_ifs
      · exact hsame
      · exact hsame
      · exact hsame
      · exact calm.setRescb hopen hclean fun t' r' ht' => .inr (hgot t' r' ht')
      · exact calm.setRescb hopen hclean fun t' r' ht' => .inr (hgot t' r' ht')
      · exact hsame
      · exact hsame
      · exact hsame
  | devmgrStartup r =>
    have hcalm := calm.clear ⟨true, 0⟩ s.DisSusCnt (s.cleaning r) rfl fun t ht =>
      ⟨rfl, (calm.got t r ht).2⟩
    rwa [update_eq_self] at hcalm
  | devmgrCleanup r looked =>
    obtain ⟨rfl, hfree⟩ := h
    simp only [SusStep.exec, SusSys.devmgrCleanup]
    split_ifs with hopen
    · have hcalm :=
          calm.clear (s.rescb r) s.DisSusCnt (s.cleaning r + 1) (calm.unused r hopen) fun t ht =>
        absurd ht (hfree t)
      unfold SusSys.setRescb at hcalm
      rwa [update_eq_self] at hcalm
    · exact calm.clear _ _ _ rfl fun t ht => absurd ht (hfree t)
  | cleanResblk r =>
    exact calm.clear _ _ _ rfl fun t ht => absurd (calm.got t r ht).2 (Nat.ne_of_gt enabled)

end SusCalm

theorem SusRun.calm [DecidableEq T] [DecidableEq R] (run : SusRun True s lost) :
    SusCalm s ∧ lost = 0 := by
  induction run with
  | start => exact ⟨susCalm_start, rfl⟩
  | step run step enabled h ih =>
    obtain ⟨calm, hlost⟩ := ih
    have hstep := h trivial
    exact ⟨calm.exec enabled hstep, by rw [calm.forgotten enabled hstep, hlost, add_zero]⟩

/-! ## How the devices are suspended -/

/-- The calls of the drivers. -/
def driverCalls (acts : List SusAct) : List (DDev × ℤ) :=
  acts.filterMap fun act =>
    match act with
    | .eventfn ddev evttyp => some (ddev, evttyp)
    | _ => none

theorem driverCalls_append (acts acts' : List SusAct) :
    driverCalls (acts ++ acts') = driverCalls acts ++ driverCalls acts' := List.filterMap_append

theorem driverCalls_between {l l' : List SusAct} (acts : List SusAct) (h : driverCalls l = [])
    (h' : driverCalls l' = []) :
    driverCalls (l ++ acts ++ l') = driverCalls acts := by
  rw [driverCalls_append, driverCalls_append, h, h', List.nil_append, List.append_nil]

theorem driverCalls_sendevtAlldevice (devs : List DDev) (evttyp : ℤ) (disk : Bool) :
    driverCalls (sendevtAlldevice devs evttyp disk) =
      (devs.filter fun ddev => disk = ddev.isDisk).map fun ddev => (ddev, evttyp) := by
  unfold driverCalls sendevtAlldevice
  rw [List.filterMap_map]
  exact congrFun List.filterMap_eq_map _

theorem driverCalls_both (devs : List DDev) (evttyp : ℤ) (disk : Bool) :
    (driverCalls (sendevtAlldevice devs evttyp disk) ++ driverCalls (sendevtAlldevice devs evttyp
      !disk)).Perm
        (devs.map fun ddev => (ddev, evttyp)) ∧
      (driverCalls (sendevtAlldevice devs evttyp disk) ++ driverCalls (sendevtAlldevice devs evttyp
        !disk)).Pairwise
        fun x y => x.1.isDisk = disk ∨ y.1.isDisk = !disk := by
  rw [driverCalls_sendevtAlldevice, driverCalls_sendevtAlldevice, ← List.map_append]
  have hnot : (fun ddev : DDev => decide ((!disk) = ddev.isDisk)) = fun ddev =>
      !decide (disk = ddev.isDisk) := by
    funext ddev
    cases disk <;> cases ddev.isDisk <;> rfl
  constructor
  · rw [hnot]
    exact (List.filter_append_perm _ devs).map _
  · rw [List.pairwise_map, List.pairwise_append]
    refine ⟨List.pairwise_of_forall_mem_list fun x hx y _ => .inl ?_,
      List.pairwise_of_forall_mem_list fun x _ y hy => .inr ?_, fun x hx y _ => .inl ?_⟩
    · exact (of_decide_eq_true (List.mem_filter.mp hx).2).symm
    · exact (of_decide_eq_true (List.mem_filter.mp hy).2).symm
    · exact (of_decide_eq_true (List.mem_filter.mp hx).2).symm

/-- Every device is suspended once before the power goes, the disks after the others, and resumed
once after that, the disks before the others. -/
theorem doSuspend_devices (devs : List DDev) :
    ∃ before after, doSuspend devs = before ++ .dosuspend :: after ∧
    (driverCalls before).Perm (devs.map fun ddev => (ddev, TDV_SUSPEND)) ∧
    (driverCalls before).Pairwise (fun x y => x.1.isDisk = false ∨ y.1.isDisk = true) ∧
    (driverCalls after).Perm (devs.map fun ddev => (ddev, TDV_RESUME)) ∧
    (driverCalls after).Pairwise (fun x y => x.1.isDisk = true ∨ y.1.isDisk = false) := by
  refine ⟨[.lockREG, .evtSsy TSEVT_SUSPEND_BEGIN] ++ (sendevtAlldevice devs TDV_SUSPEND false ++
    sendevtAlldevice devs TDV_SUSPEND true) ++ [.lockDM, .evtSsy TSEVT_SUSPEND_DONE],
    [.evtSsy TSEVT_RESUME_BEGIN, .unlockDM] ++ (sendevtAlldevice devs TDV_RESUME true ++
    sendevtAlldevice devs TDV_RESUME false) ++ [.unlockREG, .evtSsy TSEVT_RESUME_DONE], ?_, ?_⟩
  · simp [doSuspend]
  · rw [driverCalls_between _ rfl rfl, driverCalls_between _ rfl rfl, driverCalls_append,
      driverCalls_append]
    obtain ⟨hsuspend, hlast⟩ := driverCalls_both devs TDV_SUSPEND false
    obtain ⟨hresume, hfirst⟩ := driverCalls_both devs TDV_RESUME true
    exact ⟨hsuspend, hlast, hresume, hfirst⟩

/-! ## When the devices are suspended -/

section Suspend

variable [DecidableEq R]

end Suspend

end SmpTKernel
