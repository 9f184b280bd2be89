import SmpTKernel.EventFlag

/-!
# Event flags wake exactly

A set is a scan of the whole queue, in which every task is tested against the pattern that those
before it have left. The pattern only loses bits on the way, so a task that was passed over is not
eligible afterwards.
-/

namespace SmpTKernel

/-! ## Patterns -/

variable {p p' waiptn wfmode : BitVec 32} {s s' : Flgcb} {l : List Tsk} {t self : Tsk}

/-- The bits of `p` are bits of `p'`. -/
def SubPtn (p p' : BitVec 32) : Prop := ∀ i, p.getLsbD i = true → p'.getLsbD i = true

theorem SubPtn.trans {p'' : BitVec 32} (h : SubPtn p p') (h' : SubPtn p' p'') : SubPtn p p'' :=
  fun i hi => h' i (h i hi)

theorem subPtn_and (p q : BitVec 32) : SubPtn (p &&& q) p := by
  intro i hi
  rw [BitVec.getLsbD_and, Bool.and_eq_true] at hi
  exact hi.1

theorem subPtn_zero (p : BitVec 32) : SubPtn 0 p := fun i hi => by simp at hi

/-- More bits release more. -/
theorem SubPtn.cond (h : SubPtn p p') (hc : eventflagCond p waiptn wfmode = true) :
    eventflagCond p' waiptn wfmode = true := by
  unfold eventflagCond at hc ⊢
  split_ifs at hc ⊢ with hor
  · rw [decide_eq_true_eq] at hc ⊢
    intro hz
    apply hc
    ext i hi
    have hbit := congrArg (fun b => b.getLsbD i) hz
    simp only [BitVec.getLsbD_and] at hbit
    rw [← BitVec.getLsbD_eq_getElem, BitVec.getLsbD_and]
    by_cases hp : p.getLsbD i = true
    · rw [h i hp] at hbit
      rw [hp, hbit]
      simp
    · rw [Bool.not_eq_true] at hp
      rw [hp]
      simp
  · rw [decide_eq_true_eq] at hc ⊢
    ext i hi
    have hbit := congrArg (fun b => b.getLsbD i) hc
    simp only [BitVec.getLsbD_and] at hbit
    rw [← BitVec.getLsbD_eq_getElem, ← BitVec.getLsbD_eq_getElem, BitVec.getLsbD_and]
    by_cases hw : waiptn.getLsbD i = true
    · rw [hw, Bool.and_true] at hbit
      rw [h i hbit, hw]
      rfl
    · rw [Bool.not_eq_true] at hw
      rw [hw, Bool.and_false]

theorem cond_zero (hw : waiptn ≠ 0) : eventflagCond 0 waiptn wfmode = false := by
  unfold eventflagCond
  split_ifs
  · simp
  · apply decide_eq_false
    intro hc
    apply hw
    rw [← hc]
    exact BitVec.zero_and

/-! ## The scan -/

/-- What a released task leaves of the pattern. -/
def clearPtn (p waiptn wfmode : BitVec 32) : BitVec 32 :=
  if wfmode &&& TWF_CLR ≠ 0 then 0 else if wfmode &&& TWF_BITCLR ≠ 0 then p &&& ~~~waiptn else p

theorem subPtn_clearPtn : SubPtn (clearPtn p waiptn wfmode) p := by
  unfold clearPtn
  split_ifs
  · exact subPtn_zero p
  · exact subPtn_and p _
  · exact fun _ hi => hi

/-- The outcome of a scan: who is released with which pattern, who is left, and the pattern in the
end. -/
structure Scan where
  released : List (Tsk × BitVec 32)
  left : List Tsk
  flgptn : BitVec 32
  deriving DecidableEq, Repr

/-- The whole queue in order, each task tested against the pattern left by those released before
it. -/
def scanQueue (waiptn wfmode : Tsk → BitVec 32) : BitVec 32 → List Tsk → Scan
  | p, [] => ⟨[], [], p⟩
  | p, t :: queue =>
    if eventflagCond p (waiptn t) (wfmode t) then
      let r := scanQueue waiptn wfmode (clearPtn p (waiptn t) (wfmode t)) queue
      { r with released := (t, p) :: r.released }
    else
      let r := scanQueue waiptn wfmode p queue
      { r with left := t :: r.left }

section Scan

variable {waiptn wfmode : Tsk → BitVec 32}

theorem scanQueue_zero (h : ∀ t ∈ l, waiptn t ≠ 0) : scanQueue waiptn wfmode 0 l = ⟨[], l, 0⟩ := by
  induction l with
  | nil => rfl
  | cons t queue ih =>
    rw [scanQueue, cond_zero (h t List.mem_cons_self), ih fun u hu =>
      h u (List.mem_cons_of_mem t hu)]
    rfl

theorem scanQueue_subPtn (p : BitVec 32) : SubPtn (scanQueue waiptn wfmode p l).flgptn p := by
  induction l generalizing p with
  | nil => exact fun _ hi => hi
  | cons t queue ih =>
    rw [scanQueue]
    split_ifs
    · exact (ih _).trans subPtn_clearPtn
    · exact ih p

theorem scanQueue_left (p : BitVec 32) : (scanQueue waiptn wfmode p l).left.Sublist l := by
  induction l generalizing p with
  | nil => exact List.Sublist.refl []
  | cons t queue ih =>
    rw [scanQueue]
    split_ifs
    · exact (ih _).cons t
    · exact (ih p).cons_cons t

/-- **Nobody who is left is eligible.** -/
theorem scanQueue_unmet (p : BitVec 32) (ht : t ∈ (scanQueue waiptn wfmode p l).left) :
    eventflagCond (scanQueue waiptn wfmode p l).flgptn (waiptn t) (wfmode t) = false := by
  induction l generalizing p with
  | nil => exact absurd ht List.not_mem_nil
  | cons u queue ih =>
    rw [scanQueue] at ht ⊢
    by_cases hu : eventflagCond p (waiptn u) (wfmode u) = true
    · rw [if_pos hu] at ht ⊢
      exact ih _ ht
    · rw [if_neg hu] at ht ⊢
      rcases List.mem_cons.mp ht with rfl | ht
      · rw [← Bool.not_eq_true]
        exact fun hc => hu ((scanQueue_subPtn p).cond hc)
      · exact ih p ht

end Scan

/-- The loop of `_tk_set_flg`, which may stop early, does what the scan of the whole queue does. -/
theorem setLoop_eq (h : ∀ t ∈ l, s.waiptn t ≠ 0) :
    s.setLoop l = ({ s with
        flgptn := (scanQueue s.waiptn s.wfmode s.flgptn l).flgptn
        wait_queue := (scanQueue s.waiptn s.wfmode s.flgptn l).left },
      (scanQueue s.waiptn s.wfmode s.flgptn l).released.map fun x => .released x.1 x.2) := by
  induction l generalizing s with
  | nil => rfl
  | cons tcb queue ih =>
    have hq : ∀ t ∈ queue, s.waiptn t ≠ 0 := fun t ht => h t (List.mem_cons_of_mem tcb ht)
    unfold Flgcb.setLoop
    rw [scanQueue]
    dsimp only
    by_cases hc : eventflagCond s.flgptn (s.waiptn tcb) (s.wfmode tcb) = true
    · rw [if_pos hc, if_pos hc]
      by_cases hclr : s.wfmode tcb &&& TWF_CLR ≠ 0
      · have hzero : clearPtn s.flgptn (s.waiptn tcb) (s.wfmode tcb) = 0 := if_pos hclr
        rw [hzero, scanQueue_zero hq]
        generalize (if s.wfmode tcb &&& TWF_BITCLR ≠ 0 then s.flgptn &&&
          ~~~s.waiptn tcb else s.flgptn) = flgptn
        by_cases hstop : s.wfmode tcb &&& TWF_BITCLR ≠ 0 ∧ flgptn = 0
        · rw [if_pos hstop, hstop.2]
          rfl
        · rw [if_neg hstop, if_pos hclr]
          rfl
      · by_cases hbit : s.wfmode tcb &&& TWF_BITCLR ≠ 0
        · have hclear : clearPtn s.flgptn (s.waiptn tcb) (s.wfmode tcb) = s.flgptn &&&
              ~~~s.waiptn tcb := by
            rw [clearPtn, if_neg hclr, if_pos hbit]
          rw [if_pos hbit, hclear, if_neg hclr]
          by_cases hzero : s.flgptn &&& ~~~s.waiptn tcb = 0
          · rw [if_pos ⟨hbit, hzero⟩, hzero, scanQueue_zero hq]
            rfl
          · rw [if_neg fun hc => hzero hc.2, @ih { s with flgptn := s.flgptn &&& ~~~s.waiptn tcb }
              hq]
            rfl
        · have hclear : clearPtn s.flgptn (s.waiptn tcb) (s.wfmode tcb) = s.flgptn := by
            rw [clearPtn, if_neg hclr, if_neg hbit]
          rw [if_neg hbit, if_neg fun hc => hbit hc.1, if_neg hclr, hclear,
            @ih { s with flgptn := s.flgptn } hq]
          rfl
    · rw [if_neg hc, if_neg hc, ih hq]

/-! ## The invariant -/

structure FlgInv (s : Flgcb) : Prop where
  /-- No waiting task's condition is met. -/
  unmet : ∀ t ∈ s.wait_queue, eventflagCond s.flgptn (s.waiptn t) (s.wfmode t) = false
  single : s.flgatr &&& TA_WMUL = 0 → s.wait_queue.length ≤ 1
  waiptn : ∀ t ∈ s.wait_queue, s.waiptn t ≠ 0

/-- Fewer tasks wait, perhaps in another order, for the same bits of a pattern that has lost
some. -/
theorem FlgInv.shrink (inv : FlgInv s) (hqueue : s'.wait_queue.Subperm s.wait_queue)
    (hatr : s'.flgatr = s.flgatr) (hflgptn : SubPtn s'.flgptn s.flgptn)
    (hwaiptn : s'.waiptn = s.waiptn) (hwfmode : s'.wfmode = s.wfmode) :
    FlgInv s' := by
  refine ⟨fun t ht => ?_, fun hmul => ?_, fun t ht => ?_⟩
  · rw [← Bool.not_eq_true, hwaiptn, hwfmode]
    intro hc
    have hmet := hflgptn.cond hc
    rw [inv.unmet t (hqueue.subset ht)] at hmet
    exact Bool.false_ne_true hmet
  · exact hqueue.length_le.trans (inv.single (hatr ▸ hmul))
  · rw [hwaiptn]
    exact inv.waiptn t (hqueue.subset ht)

/-- The fields that matter to who waits have not changed. -/
theorem FlgInv.same (inv : FlgInv s) (hqueue : s'.wait_queue = s.wait_queue)
    (hatr : s'.flgatr = s.flgatr) (hflgptn : s'.flgptn = s.flgptn) (hwaiptn : s'.waiptn = s.waiptn)
    (hwfmode : s'.wfmode = s.wfmode) : FlgInv s' :=
  inv.shrink (hqueue ▸ List.Subperm.refl _) hatr (fun _ hi => hflgptn ▸ hi) hwaiptn hwfmode

theorem FlgInv.endWait (inv : FlgInv s) (t : Tsk) (ercd : Option ER) :
    FlgInv (s.endWait t ercd).1 :=
  inv.shrink List.erase_sublist.subperm rfl (fun _ hi => hi) rfl rfl

/-- **A set is a scan of the queue.** -/
theorem FlgInv.tkSetFlg_eq (inv : FlgInv s) (setptn : BitVec 32) :
    s.tkSetFlg true E_OK setptn =
      ({ s with
          flgptn := (scanQueue s.waiptn s.wfmode (s.flgptn ||| setptn) s.wait_queue).flgptn
          wait_queue := (scanQueue s.waiptn s.wfmode (s.flgptn ||| setptn) s.wait_queue).left },
        (scanQueue s.waiptn s.wfmode (s.flgptn ||| setptn) s.wait_queue).released.map fun x =>
          .released x.1 x.2,
        some E_OK) := by
  have hloop := @setLoop_eq { s with flgptn := s.flgptn ||| setptn } s.wait_queue inv.waiptn
  unfold Flgcb.tkSetFlg
  rw [hloop]
  rfl

variable {r r' : FlgResult}

theorem flgInv_ite {c : Prop} [Decidable c] (h : c → FlgInv r.1) (h' : ¬c → FlgInv r'.1) :
    FlgInv (if c then r else r').1 := by
  split_ifs with hc
  · exact h hc
  · exact h' hc

theorem FlgInv.tkSetFlg (inv : FlgInv s) (idOk : Bool) (prot : ER) (setptn : BitVec 32) :
    FlgInv (s.tkSetFlg idOk prot setptn).1 := by
  by_cases hid : idOk = true
  · by_cases hprot : prot = E_OK
    · rw [hid, hprot, inv.tkSetFlg_eq]
      have hsub : (scanQueue s.waiptn s.wfmode (s.flgptn ||| setptn) s.wait_queue).left.Sublist
          s.wait_queue :=
        scanQueue_left _
      refine ⟨fun t ht => scanQueue_unmet _ ht, fun hmul => ?_, fun t ht =>
        inv.waiptn t (hsub.subset ht)⟩
      exact hsub.length_le.trans (inv.single hmul)
    · unfold Flgcb.tkSetFlg
      exact flgInv_ite (fun _ => inv) fun _ => flgInv_ite (fun _ => inv) fun hc =>
        absurd (not_not.mp hc) hprot
  · unfold Flgcb.tkSetFlg
    exact flgInv_ite (fun _ => inv) fun hc => absurd (by simpa using hc) hid

theorem FlgInv.tkClrFlg (inv : FlgInv s) (idOk : Bool) (prot : ER) (clrptn : BitVec 32) :
    FlgInv (s.tkClrFlg idOk prot clrptn).1 := by
  unfold Flgcb.tkClrFlg
  exact flgInv_ite (fun _ => inv) fun _ => flgInv_ite (fun _ => inv) fun _ =>
    inv.shrink (List.Subperm.refl _) rfl (subPtn_and _ _) rfl rfl

/-- A task waits whose condition is not met. -/
theorem FlgInv.makeWait (inv : FlgInv s) (hself : self ∉ s.wait_queue) (hwaiptn : waiptn ≠ 0)
    (hunmet : ¬eventflagCond s.flgptn waiptn wfmode = true)
    (hmul : ¬(s.flgatr &&& TA_WMUL = 0 ∧ (!s.wait_queue.isEmpty) = true)) :
    FlgInv ({ s with
      waiptn := Function.update s.waiptn self waiptn
      wfmode := Function.update s.wfmode self wfmode }.makeWait self) := by
  have hperm : (gcbInsert s.flgatr s.priority self s.wait_queue).Perm (self :: s.wait_queue) :=
    gcbInsert_perm s.flgatr s.priority self s.wait_queue
  refine ⟨fun t ht => ?_, fun hatr => ?_, fun t ht => ?_⟩
  · show eventflagCond s.flgptn (Function.update s.waiptn self waiptn t)
      (Function.update s.wfmode self wfmode t) = false
    rcases List.mem_cons.mp (hperm.subset ht) with rfl | ht
    · rw [Function.update_self, Function.update_self]
      exact Bool.not_eq_true _ ▸ hunmet
    · have hne := ne_of_mem_of_not_mem ht hself
      rw [Function.update_of_ne hne, Function.update_of_ne hne]
      exact inv.unmet t ht
  · have hnil : s.wait_queue = [] := by
      rw [← List.isEmpty_iff, ← Bool.not_eq_false]
      exact fun hc => hmul ⟨hatr, by rw [hc]; rfl⟩
    refine hperm.length_eq.le.trans ?_
    rw [hnil]
    exact Nat.le_refl 1
  · show Function.update s.waiptn self waiptn t ≠ 0
    rcases List.mem_cons.mp (hperm.subset ht) with rfl | ht
    · rw [Function.update_self]
      exact hwaiptn
    · rw [Function.update_of_ne (ne_of_mem_of_not_mem ht hself)]
      exact inv.waiptn t ht

theorem FlgInv.tkWaiFlg (inv : FlgInv s) (hself : self ∉ s.wait_queue) (idOk ddsp : Bool)
    (prot : ER) (waiptn wfmode : BitVec 32) (tmout : ℤ) :
    FlgInv (s.tkWaiFlg self idOk ddsp prot waiptn wfmode tmout).1 := by
  have hset : FlgInv { s with
      waiptn := Function.update s.waiptn self waiptn
      wfmode := Function.update s.wfmode self wfmode } := by
    refine ⟨fun t ht => ?_, inv.single, fun t ht => ?_⟩
    · have hne := ne_of_mem_of_not_mem ht hself
      show eventflagCond s.flgptn (Function.update s.waiptn self waiptn t)
        (Function.update s.wfmode self wfmode t) = false
      rw [Function.update_of_ne hne, Function.update_of_ne hne]
      exact inv.unmet t ht
    · show Function.update s.waiptn self waiptn t ≠ 0
      rw [Function.update_of_ne (ne_of_mem_of_not_mem ht hself)]
      exact inv.waiptn t ht
  unfold Flgcb.tkWaiFlg
  refine flgInv_ite (fun _ => inv) fun _ => flgInv_ite (fun _ => inv) fun hwaiptn =>
      flgInv_ite (fun _ => inv) fun _ =>
    flgInv_ite (fun _ => inv) fun _ => flgInv_ite (fun _ => inv) fun _ =>
      flgInv_ite (fun _ => inv) fun _ =>
    flgInv_ite (fun _ => inv) fun hmul => flgInv_ite (fun _ => inv) fun _ =>
      flgInv_ite (fun _ => ?_) fun hunmet =>
    flgInv_ite (fun _ => hset) fun _ => flgInv_ite (fun _ => hset) fun _ =>
    inv.makeWait hself (not_not.mp hwaiptn) hunmet hmul
  -- clear event flag
  have hbit : FlgInv (if wfmode &&& TWF_BITCLR ≠ 0 then { s with flgptn := s.flgptn &&& ~~~waiptn }
      else s) := by
    split_ifs
    · exact inv.shrink (List.Subperm.refl _) rfl (subPtn_and _ _) rfl rfl
    · exact inv
  dsimp only
  generalize (if wfmode &&& TWF_BITCLR ≠ 0 then { s with flgptn := s.flgptn &&& ~~~waiptn }
    else s) = s₁ at hbit
  split_ifs
  · exact hbit.shrink (List.Subperm.refl _) rfl (subPtn_zero _) rfl rfl
  · exact hbit

theorem FlgInv.tkDisWai (inv : FlgInv s) (t : Tsk) (waitmask : ℕ) (chk : ER) (elsewhere : ℤ) :
    FlgInv (s.tkDisWai t waitmask chk elsewhere).1 := by
  have hset : FlgInv { s with waitmask := Function.update s.waitmask t waitmask } :=
    inv.same rfl rfl rfl rfl rfl
  unfold Flgcb.tkDisWai
  exact flgInv_ite (fun _ => inv) fun _ => flgInv_ite
    (fun _ => flgInv_ite (fun _ => hset.endWait t (some E_DISWAI)) fun _ => hset) fun _ => hset

theorem FlgInv.tkChgPri (inv : FlgInv s) (t : Tsk) (priority : ℕ) (chk : ER) :
    FlgInv (s.tkChgPri t priority chk).1 := by
  unfold Flgcb.tkChgPri
  refine flgInv_ite (fun _ => inv) fun _ => ?_
  unfold Flgcb.changeTaskPriority
  dsimp only
  split_ifs with hhook
  · exact inv.shrink (gcbChangePriority_perm _ hhook.1).subperm rfl (fun _ hi => hi) rfl rfl
  · exact inv.same rfl rfl rfl rfl rfl

theorem FlgInv.exec (inv : FlgInv s) {op : FlgOp} (legal : op.Legal s) : FlgInv (op.exec s).1 := by
  cases op with
  | setFlg idOk prot setptn => exact inv.tkSetFlg idOk prot setptn
  | clrFlg idOk prot clrptn => exact inv.tkClrFlg idOk prot clrptn
  | waiFlg self idOk ddsp prot waiptn wfmode tmout =>
    exact inv.tkWaiFlg legal idOk ddsp prot waiptn wfmode tmout
  | timeout t => exact flgInv_ite (fun _ => inv.endWait t (some E_TMOUT)) fun _ => inv
  | relWai t chk =>
    exact flgInv_ite (fun _ => inv) fun _ => flgInv_ite (fun _ => inv.endWait t (some E_RLWAI))
      fun _ => inv
  | disWai t waitmask chk elsewhere => exact inv.tkDisWai t waitmask chk elsewhere
  | enaWai t chk => exact flgInv_ite (fun _ => inv) fun _ => inv.same rfl rfl rfl rfl rfl
  | terTsk t chk =>
    exact flgInv_ite (fun _ => inv) fun _ => flgInv_ite (fun _ => inv.endWait t none) fun _ => inv
  | chgPri t priority chk => exact inv.tkChgPri t priority chk

/-! ## Runs -/

theorem FlgRun.inv (run : FlgRun s) : FlgInv s := by
  induction run with
  | create h =>
    unfold tkCreFlg at h
    split_ifs at h
    have hs := Except.ok.inj h
    subst hs
    exact ⟨fun t ht => absurd ht List.not_mem_nil, fun _ => Nat.zero_le 1, fun t ht =>
      absurd ht List.not_mem_nil⟩
  | step op _ legal ih => exact ih.exec legal

/-- **Waking is exact.** In every state of a run no waiting task's condition is met, a flag without
`TA_WMUL` has at most one waiting task, and a set releases the tasks that a scan of the whole queue
in order finds, each with the pattern it was tested against. -/
theorem flgRun_exact (run : FlgRun s) :
    (∀ t ∈ s.wait_queue, eventflagCond s.flgptn (s.waiptn t) (s.wfmode t) = false) ∧
      (s.flgatr &&& TA_WMUL = 0 → s.wait_queue.length ≤ 1) ∧
      ∀ setptn, s.tkSetFlg true E_OK setptn =
        ({ s with
            flgptn := (scanQueue s.waiptn s.wfmode (s.flgptn ||| setptn) s.wait_queue).flgptn
            wait_queue := (scanQueue s.waiptn s.wfmode (s.flgptn ||| setptn) s.wait_queue).left },
          (scanQueue s.waiptn s.wfmode (s.flgptn ||| setptn) s.wait_queue).released.map fun x =>
            .released x.1 x.2,
          some E_OK) :=
  ⟨run.inv.unmet, run.inv.single, fun setptn => run.inv.tkSetFlg_eq setptn⟩

/-- Task 1 waits for bit 0 and clears it, task 2 for bit 0 and task 3 for bits 1 and 2: a set of
bits 0, 1 and 2 releases tasks 1 and 3. -/
theorem flgRun_exact_set :
    ∃ s : Flgcb, ((s.tkSetFlg true E_OK 7).2.1 = [.released 1 7, .released 3 6] ∧
        (s.tkSetFlg true E_OK 7).1.wait_queue = [2]) ∧
      (∀ t ∈ s.wait_queue, eventflagCond s.flgptn (s.waiptn t) (s.wfmode t) = false) ∧
      (s.flgatr &&& TA_WMUL = 0 → s.wait_queue.length ≤ 1) ∧
      ∀ setptn, s.tkSetFlg true E_OK setptn =
        ({ s with
            flgptn := (scanQueue s.waiptn s.wfmode (s.flgptn ||| setptn) s.wait_queue).flgptn
            wait_queue := (scanQueue s.waiptn s.wfmode (s.flgptn ||| setptn) s.wait_queue).left },
          (scanQueue s.waiptn s.wfmode (s.flgptn ||| setptn) s.wait_queue).released.map fun x =>
            .released x.1 x.2,
          some E_OK) := by
  let s₀ : Flgcb := ⟨[], 0, 0, fun _ => 10, fun _ => 0, fun _ => false, fun _ => 0, fun _ => 0⟩
  have run₁ : FlgRun { s₀ with flgatr := TA_WMUL } :=
    FlgRun.create (show tkCreFlg true E_OK TA_WMUL 0 s₀ = .ok { s₀ with flgatr := TA_WMUL } from
      rfl)
  have run₂ :=
    run₁.step (.waiFlg 1 true false E_OK 1 TWF_BITCLR TMO_FEVR) (show (1 : Tsk) ∉
      Flgcb.wait_queue _ by decide)
  have run₃ :=
    run₂.step (.waiFlg 2 true false E_OK 1 TWF_ANDW TMO_FEVR) (show (2 : Tsk) ∉
      Flgcb.wait_queue _ by decide)
  have run₄ :=
    run₃.step (.waiFlg 3 true false E_OK 6 TWF_ANDW TMO_FEVR) (show (3 : Tsk) ∉
      Flgcb.wait_queue _ by decide)
  exact ⟨_, by decide, flgRun_exact run₄⟩

end SmpTKernel
