import SmpTKernel.DeviceOpenInv

/-!
# Open modes never conflict

`chkopenmode` looks at all blocks of the device, also at those whose open or close is not completed,
and asks in both directions. So the blocks in `openq` are compatible, whatever the drivers do, and
also when the device is registered again while it is open.
-/

namespace SmpTKernel

/-- Two units overlap: they are the same, or one of them is the whole device. -/
def Overlap (u u' : ℤ) : Prop := u = u' ∨ u = 0 ∨ u' = 0

/-- The first mode does not tolerate the second one. -/
def Excludes (m m' : BitVec 32) : Prop :=
  m &&& (TD_EXCL ||| TD_REXCL) ≠ 0 ∧ m' &&& TD_READ ≠ 0 ∨
    m &&& (TD_EXCL ||| TD_WEXCL) ≠ 0 ∧ m' &&& TD_WRITE ≠ 0

/-- Two blocks may be open at the same time. -/
def Compatible (b b' : OpnCB) : Prop :=
  Overlap b.unitno b'.unitno → ¬Excludes b.omode b'.omode ∧ ¬Excludes b'.omode b.omode

theorem Overlap.symm {u u' : ℤ} (h : Overlap u u') : Overlap u' u := by
  rcases h with h | h | h
  · exact Or.inl h.symm
  · exact Or.inr (Or.inr h)
  · exact Or.inr (Or.inl h)

theorem Compatible.symm {b b' : OpnCB} (h : Compatible b b') : Compatible b' b :=
  fun ho => (h ho.symm).symm

/-! ## Runs -/

inductive DevRegOp
  | dev (op : DevOp)
  /-- `tk_def_dev` for a registered device. -/
  | defDev (drvatr : BitVec 32) (nsub : ℤ)
  deriving DecidableEq, Repr

def DevRegOp.exec (s : DevCB) : DevRegOp → DevCB
  | dev op => op.exec s
  | defDev drvatr nsub =>
    { s with
      drvatr := drvatr
      nsub := nsub }

def DevRegOp.Legal (s : DevCB) : DevRegOp → Prop
  | dev op => op.Legal s
  | defDev .. => True

/-- The states a device reaches from `s₀`. -/
inductive DevRegRun (s₀ : DevCB) : DevCB → Prop
  | start (h : s₀.Unused) : DevRegRun s₀ s₀
  | step {s : DevCB} (op : DevRegOp) (run : DevRegRun s₀ s) (legal : op.Legal s) :
      DevRegRun s₀ (op.exec s)

/-! ## The check -/

variable {s s' s₀ : DevCB} {o o' rid : ℕ} {unitno : ℤ} {omode option : BitVec 32} {p : OpnPhase}

/-- A block that passes the check is compatible with all that are there. -/
theorem compatible_of_chkopenmode (h : ¬s.chkopenmode unitno omode < E_OK) (ho : o ∈ s.openq)
    (resid : ℕ) :
    Compatible (s.opncb o) ⟨unitno, omode, resid⟩ := by
  intro hover
  have hmem : s.opncb o ∈ (s.openq.map s.opncb).filter fun opncb =>
      unitno = 0 ∨ opncb.unitno = 0 ∨ opncb.unitno = unitno := by
    refine List.mem_filter.mpr ⟨List.mem_map.mpr ⟨o, ho, rfl⟩, decide_eq_true ?_⟩
    rcases hover with e | e | e
    · exact Or.inr (Or.inr e)
    · exact Or.inr (Or.inl e)
    · exact Or.inl e
  -- one such block is enough for the counters
  have hcount {m : BitVec 32} (hm : (s.opncb o).omode &&& m ≠ 0) :
      0 < ((s.openq.map s.opncb).filter fun opncb =>
      unitno = 0 ∨ opncb.unitno = 0 ∨ opncb.unitno = unitno).countP fun opncb =>
        opncb.omode &&& m ≠ 0 :=
    List.countP_pos_iff.mpr ⟨_, hmem, decide_eq_true hm⟩
  unfold DevCB.chkopenmode at h
  dsimp only at h
  split at h
  · exact absurd (by decide) h
  split at h
  · exact absurd (by decide) h
  next hread =>
  split at h
  · exact absurd (by decide) h
  next hwrite =>
  split at h
  · exact absurd (by decide) h
  next hrexcl =>
  split at h
  · exact absurd (by decide) h
  next hwexcl =>
  refine ⟨?_, ?_⟩
  · rintro (⟨hx, hm⟩ | ⟨hx, hm⟩)
    · exact hrexcl ⟨hm, hcount hx⟩
    · exact hwexcl ⟨hm, hcount hx⟩
  · rintro (⟨hx, hm⟩ | ⟨hx, hm⟩)
    · exact hread ⟨hx, hcount hm⟩
    · exact hwrite ⟨hx, hcount hm⟩

/-! ## The invariant -/

/-- The blocks in the queue are compatible; descriptors are in the queue. -/
structure ModeInv (s : DevCB) : Prop where
  nodup : s.openq.Nodup
  queued : ∀ o, o ∈ s.openq ↔ (s.phase o).queued
  described : ∀ o, (s.opncb o).resid ≠ 0 → o ∈ s.openq
  compatible : ∀ o ∈ s.openq, ∀ o' ∈ s.openq, o ≠ o' → Compatible (s.opncb o) (s.opncb o')

theorem ModeInv.congr (inv : ModeInv s) (hq : s'.openq = s.openq) (ho : s'.opncb = s.opncb)
    (hp : s'.phase = s.phase) : ModeInv s' := by
  refine ⟨?_, ?_, ?_, ?_⟩
  · rw [hq]
    exact inv.nodup
  · rw [hq, hp]
    exact inv.queued
  · rw [hq, ho]
    exact inv.described
  · rw [hq, ho]
    exact inv.compatible

/-- A block goes on and stays in the queue, or outside. -/
theorem ModeInv.goTo (inv : ModeInv s) (h : p.queued = (s.phase o).queued) :
    ModeInv (s.goTo o p) := by
  refine ⟨inv.nodup, fun o' => ?_, inv.described, inv.compatible⟩
  show o' ∈ s.openq ↔ (Function.update s.phase o p o').queued
  rcases eq_or_ne o' o with rfl | hne
  · rw [Function.update_self, h]
    exact inv.queued o'
  · rw [Function.update_of_ne hne]
    exact inv.queued o'

/-- The modes of a block do not change with its `resid`. -/
theorem ModeInv.setResid (inv : ModeInv s) (h : rid ≠ 0 → o ∈ s.openq) :
    ModeInv (s.setResid o rid) := by
  have hmode (x : ℕ) : ((s.setResid o rid).opncb x).unitno = (s.opncb x).unitno ∧
      ((s.setResid o rid).opncb x).omode = (s.opncb x).omode := by
    rcases eq_or_ne x o with rfl | hne
    · rw [setResid_self]
      exact ⟨rfl, rfl⟩
    · rw [setResid_other hne]
      exact ⟨rfl, rfl⟩
  refine ⟨inv.nodup, inv.queued, fun x hx => ?_, fun x hx y hy hxy => ?_⟩
  · rcases eq_or_ne x o with rfl | hne
    · rw [setResid_self] at hx
      exact h hx
    · rw [setResid_other hne] at hx
      exact inv.described x hx
  · have := inv.compatible x hx y hy hxy
    unfold Compatible at this ⊢
    rwa [(hmode x).1, (hmode x).2, (hmode y).1, (hmode y).2]

theorem ModeInv.delOpnCB (inv : ModeInv s) (hp : p.queued = false) :
    ModeInv ((s.delOpnCB o).goTo o p) := by
  have inv' : ModeInv (s.setResid o 0) := inv.setResid fun h => absurd rfl h
  refine ⟨inv.nodup.erase o, fun x => ?_, fun x hx => ?_, fun x hx y hy hxy =>
    inv'.compatible x (List.mem_of_mem_erase hx) y (List.mem_of_mem_erase hy) hxy⟩
  · show x ∈ s.openq.erase o ↔ (Function.update s.phase o p x).queued
    rcases eq_or_ne x o with rfl | hne
    · rw [Function.update_self, hp]
      exact iff_of_false inv.nodup.not_mem_erase Bool.false_ne_true
    · rw [Function.update_of_ne hne, List.mem_erase_of_ne hne]
      exact inv.queued x
  · have hne : x ≠ o := by
      rintro rfl
      exact hx (congrArg OpnCB.resid setResid_self)
    exact (List.mem_erase_of_ne hne).mpr (inv'.described x hx)

/-- A block enters the queue. -/
theorem ModeInv.newOpnCB (inv : ModeInv s) (hfree : s.phase o = .free)
    (hok : ¬s.chkopenmode unitno omode < E_OK) (hp : p.queued) :
    ModeInv ((s.newOpnCB o unitno omode).goTo o p) := by
  have hnew : o ∉ s.openq := by
    rw [inv.queued, hfree]
    exact Bool.false_ne_true
  have hother {x : ℕ} (hx : x ∈ s.openq) : Function.update s.opncb o ⟨unitno, omode, 0⟩ x =
      s.opncb x :=
    Function.update_of_ne (ne_of_mem_of_not_mem hx hnew) _ _
  refine ⟨(List.perm_append_singleton o s.openq).symm.nodup (List.nodup_cons.mpr ⟨hnew, inv.nodup⟩),
    fun x => ?_, fun x hx => ?_, fun x hx y hy hxy => ?_⟩
  · show x ∈ s.openq ++ [o] ↔ (Function.update s.phase o p x).queued
    rw [List.mem_append, List.mem_singleton]
    rcases eq_or_ne x o with rfl | hne
    · rw [Function.update_self]
      exact iff_of_true (Or.inr rfl) hp
    · rw [Function.update_of_ne hne, or_iff_left hne]
      exact inv.queued x
  · rcases eq_or_ne x o with rfl | hne
    · exact List.mem_append_right _ (List.mem_singleton.mpr rfl)
    · have hx' : (s.opncb x).resid ≠ 0 := by
        rwa [← Function.update_of_ne hne (⟨unitno, omode, 0⟩ : OpnCB) s.opncb]
      exact List.mem_append_left _ (inv.described x hx')
  · show Compatible (Function.update s.opncb o _ x) (Function.update s.opncb o _ y)
    rcases List.mem_append.mp hx with hx | hx <;> rcases List.mem_append.mp hy with hy | hy
    · rw [hother hx, hother hy]
      exact inv.compatible x hx y hy hxy
    · rw [hother hx, List.mem_singleton.mp hy, Function.update_self]
      exact compatible_of_chkopenmode hok hx 0
    · rw [hother hy, List.mem_singleton.mp hx, Function.update_self]
      exact (compatible_of_chkopenmode hok hy 0).symm
    · exact absurd ((List.mem_singleton.mp hx).trans (List.mem_singleton.mp hy).symm) hxy

theorem ModeInv.opnDev (inv : ModeInv s) {new : Option ℕ} (hnew : ∀ o ∈ new, s.phase o = .free) :
    ModeInv (s.opnDev unitno omode new).2 := by
  unfold DevCB.opnDev
  split
  · exact inv
  split
  · exact inv
  next hok =>
  cases new with
  | none => exact inv
  | some o =>
    dsimp only
    refine inv.newOpnCB (hnew o rfl) hok ?_
    split_ifs <;> rfl

theorem ModeInv.closeDevice (inv : ModeInv s) : ModeInv (s.closeDevice o option) := by
  unfold DevCB.closeDevice
  dsimp only
  split_ifs <;> exact inv.delOpnCB rfl

theorem ModeInv.exec (inv : ModeInv s) {op : DevOp} (legal : op.Legal s) : ModeInv (op.exec s) := by
  cases op with
  | opnDev unitno omode new => exact inv.opnDev legal
  | callOpenfn o =>
    have hq : OpnPhase.inOpen.queued = (s.phase o).queued := congrArg OpnPhase.queued legal |>.symm
    exact (inv.goTo hq).congr rfl rfl rfl
  | openfnReturns o ercd =>
    have ho : s.phase o = .inOpen := legal
    refine (inv.goTo (o := o) (p := if ercd < E_OK then .failed ercd else .opened) ?_).congr
      rfl rfl rfl
    rw [ho]
    split_ifs <;> rfl
  | opnDevReturns o rid =>
    have hq : (s.phase o).queued = true := congrArg OpnPhase.queued legal.1
    exact (inv.setResid fun _ => (inv.queued o).mpr hq).goTo hq.symm
  | opnDevFails o => exact inv.delOpnCB rfl
  | clsDev o rid option =>
    show ModeInv (s.clsDev o rid option).2
    unfold DevCB.clsDev
    split
    · exact inv
    next hok =>
    have hresid : (s.opncb o).resid ≠ 0 := by
      intro c
      refine hok ?_
      rw [DevCB.checkDevdesc, if_pos c]
      decide
    have hq := (inv.queued o).mp (inv.described o hresid)
    exact (inv.setResid fun h => absurd rfl h).goTo hq.symm
  | closeDevice o option => exact inv.closeDevice
  | callClosefn o =>
    have hq : OpnPhase.inClose.queued = (s.phase o).queued := by
      have : (s.phase o).isToClose := legal
      exact (unqueued_of_isToClose this).1.symm
    exact (inv.goTo hq).congr rfl rfl rfl
  | closefnReturns o ercd =>
    have ho : s.phase o = .inClose := legal
    exact inv.goTo (by rw [ho]; rfl)
  | freeOpnCB o =>
    obtain ⟨ercd, ho⟩ := legal
    exact inv.goTo (by rw [ho]; rfl)

theorem DevRegRun.inv (run : DevRegRun s₀ s) : ModeInv s := by
  induction run with
  | start h =>
    refine ⟨?_, fun o => ?_, fun o hr => absurd (h.resid o) hr, ?_⟩
    · rw [h.openq]
      exact List.nodup_nil
    · rw [h.openq, h.phase]
      exact iff_of_false List.not_mem_nil Bool.false_ne_true
    · rw [h.openq]
      exact nofun
  | step op _ legal ih =>
    cases op with
    | dev op => exact ih.exec legal
    | defDev drvatr nsub => exact ih.congr rfl rfl rfl

end SmpTKernel
