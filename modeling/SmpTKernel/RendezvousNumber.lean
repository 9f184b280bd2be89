import SmpTKernel.RendezvousInv

/-!
# Rendezvous numbers and the limit of task IDs

A rendezvous number is the ID of the caller with a count of 4 bits in the place of the bits 12 to
15. The control block keeps the number of the next call from `task_initialize` on; creation puts in
the domain only. `task_initialize` accepts every limit of the task IDs, but the number has 12 bits
for them.
-/

namespace SmpTKernel

/-- The fields of a task control block about its numbers, and whether there is a task. -/
structure RnoTcb where
  tskid : BitVec 32
  wrdvno : BitVec 32
  exist : Bool

/-- A number, and the task that generated it. -/
structure GenRdvno where
  index : Tsk
  tskid : BitVec 32
  rdvno : BitVec 32

/-- What happens to the tasks: creation in a domain, deletion, a call of a rendezvous. -/
inductive RnoOp
  | creTsk (t : Tsk) (domid : BitVec 32)
  | delTsk (t : Tsk)
  | gen (t : Tsk)

/-- The table of the control blocks. -/
abbrev RnoTable := Tsk → RnoTcb

namespace RnoTable

variable (tcb : RnoTable)

/-- The control blocks and the numbers that are generated. -/
def exec : RnoOp → RnoTable × List GenRdvno
  | .creTsk t domid =>
    (Function.update tcb t ⟨setDomid (tcb t).tskid domid, setDomid (tcb t).wrdvno domid, true⟩, [])
  | .delTsk t => (Function.update tcb t { tcb t with exist := false }, [])
  | .gen t =>
    (Function.update tcb t { tcb t with wrdvno := nextRdvno (tcb t).wrdvno },
      [⟨t, (tcb t).tskid, (tcb t).wrdvno⟩])

/-- What can happen: a free control block is used, and only tasks call. -/
def Legal (maxTskid : ℕ) : RnoOp → Prop
  | .creTsk t _ => t < maxTskid ∧ (tcb t).exist = false
  | .delTsk t | .gen t => (tcb t).exist = true

end RnoTable

/-- The control blocks after any number of steps from `task_initialize` on, and the numbers, newest
first. -/
inductive RnoRun (maxTskid : ℕ) : RnoTable → List GenRdvno → Prop
  | init : RnoRun maxTskid (fun t => ⟨idTsk t, idTsk t, false⟩) []
  | step {tcb : RnoTable} {log : List GenRdvno} (op : RnoOp) (run : RnoRun maxTskid tcb log)
      (legal : tcb.Legal maxTskid op) : RnoRun maxTskid (tcb.exec op).1 ((tcb.exec op).2 ++ log)

/-- The numbers generated from a control block, newest first. -/
def numbersOf (t : Tsk) (log : List GenRdvno) : List (BitVec 32) :=
  (log.filter fun g => g.index = t).map GenRdvno.rdvno

/-- The next number of a task has its ID, and is none of its last 15 ones and of those of other
tasks. -/
structure Identifies (tcb : RnoTable) (log : List GenRdvno) (t : Tsk) : Prop where
  caller : getTskidRdvno (tcb t).wrdvno = (tcb t).tskid
  recent : (tcb t).wrdvno ∉ (numbersOf t log).take 15
  others : ∀ g ∈ log, g.index ≠ t ∨ g.tskid ≠ (tcb t).tskid → g.rdvno ≠ (tcb t).wrdvno

variable {tcb : RnoTable} {log : List GenRdvno} {t : Tsk} {maxTskid : ℕ} {w : BitVec 32}

/-! ## Fields of a number -/

/-- An ID below the limit of 12 bits has no bits in the place of the count. -/
theorem getTskidRdvno_idTsk {n : ℕ} (hn : n < 4095) : getTskidRdvno (idTsk n) = idTsk n := by
  apply BitVec.eq_of_getLsbD_eq
  intro i hi
  unfold getTskidRdvno
  rw [BitVec.getLsbD_and, BitVec.getLsbD_not, rdvnoMask_getLsbD hi, idTsk_getLsbD hn hi]
  by_cases h12 : i < 12
  · simp [hi, h12]
  · by_cases h24 : i = 24
    · simp [h24]
    · simp [h12, h24]

theorem getTskidRdvno_setDomid (w d : BitVec 32) :
    getTskidRdvno (setDomid w d) = setDomid (getTskidRdvno w) d := by
  apply BitVec.eq_of_getLsbD_eq
  intro i hi
  unfold getTskidRdvno setDomid
  simp only [BitVec.getLsbD_and, BitVec.getLsbD_or, BitVec.getLsbD_not, rdvnoMask_getLsbD hi,
    domidMask_getLsbD hi]
  by_cases hd : 16 ≤ i ∧ i < 24
  · have hr : ¬(12 ≤ i ∧ i < 16) := by omega
    simp [hd, hr, hi]
  · simp [hd, hi]

theorem rdvnoCount_lt (w : BitVec 32) : rdvnoCount w < 16 := (w.extractLsb' 12 4).isLt

/-! ## The invariant -/

/-- With at most 4095 tasks, every number has the ID of its task, and the counts of the numbers of a
task go up by one. -/
structure RnoInv (tcb : RnoTable) (log : List GenRdvno) : Prop where
  tskid : ∀ t < 4095, getTskidRdvno (tcb t).wrdvno = (tcb t).tskid
  index : ∀ t < 4095, indexTsk (tcb t).tskid = t
  logged : ∀ g ∈ log, getTskidRdvno g.rdvno = g.tskid ∧ indexTsk g.tskid = g.index
  counts : ∀ t k no, (numbersOf t log)[k]? = some no →
    (rdvnoCount no + k + 1) % 16 = rdvnoCount (tcb t).wrdvno

theorem RnoInv.init : RnoInv (fun t => ⟨idTsk t, idTsk t, false⟩) [] where
  tskid _ ht := getTskidRdvno_idTsk ht
  index t ht := by
    rw [← getTskidRdvno_idTsk ht]
    exact indexTsk_idTsk ht
  logged := nofun
  counts := nofun

/-- Creation and deletion change the domain part of the control block only. -/
theorem RnoInv.update (inv : RnoInv tcb log) {new : RnoTcb}
    (hid : t < 4095 → getTskidRdvno new.wrdvno = new.tskid)
    (hindex : t < 4095 → indexTsk new.tskid = t)
    (hcount : rdvnoCount new.wrdvno = rdvnoCount (tcb t).wrdvno) :
    RnoInv (Function.update tcb t new) log where
  tskid u hu := by
    by_cases h : u = t
    · subst h
      rw [Function.update_self]
      exact hid hu
    · rw [Function.update_of_ne h]
      exact inv.tskid u hu
  index u hu := by
    by_cases h : u = t
    · subst h
      rw [Function.update_self]
      exact hindex hu
    · rw [Function.update_of_ne h]
      exact inv.index u hu
  logged := inv.logged
  counts u k no hk := by
    have hold := inv.counts u k no hk
    by_cases h : u = t
    · subst h
      rw [Function.update_self, hcount]
      exact hold
    · rw [Function.update_of_ne h]
      exact hold

theorem RnoInv.creTsk (inv : RnoInv tcb log) (domid : BitVec 32) :
    RnoInv (tcb.exec (.creTsk t domid)).1 log := by
  refine inv.update (fun ht => ?_) (fun ht => ?_) ?_
  · show getTskidRdvno (setDomid _ domid) = setDomid _ domid
    rw [getTskidRdvno_setDomid, inv.tskid t ht]
  · show indexTsk (setDomid (tcb t).tskid domid) = t
    rw [← inv.tskid t ht, ← getTskidRdvno_setDomid, indexTsk_congr fun i hi =>
      setDomid_getLsbD _ _ hi, inv.tskid t ht]
    exact inv.index t ht
  · exact rdvnoCount_congr fun i hi => setDomid_getLsbD _ _ hi

theorem numbersOf_cons_self (t : Tsk) (id no : BitVec 32) (log : List GenRdvno) :
    numbersOf t (⟨t, id, no⟩ :: log) = no :: numbersOf t log := by simp [numbersOf]

theorem numbersOf_cons_of_ne {t u : Tsk} (h : t ≠ u) (id no : BitVec 32) (log : List GenRdvno) :
    numbersOf u (⟨t, id, no⟩ :: log) = numbersOf u log := by simp [numbersOf, h]

theorem RnoInv.gen (inv : RnoInv tcb log) (ht : t < 4095) :
    RnoInv (tcb.exec (.gen t)).1 ((tcb.exec (.gen t)).2 ++ log) where
  tskid u hu := by
    by_cases h : u = t
    · subst h
      show getTskidRdvno (Function.update tcb u _ u).wrdvno = (Function.update tcb u _ u).tskid
      rw [Function.update_self]
      exact (getTskidRdvno_next _).trans (inv.tskid u hu)
    · show getTskidRdvno (Function.update tcb t _ u).wrdvno = (Function.update tcb t _ u).tskid
      rw [Function.update_of_ne h]
      exact inv.tskid u hu
  index u hu := by
    show indexTsk (Function.update tcb t _ u).tskid = u
    by_cases h : u = t
    · subst h
      rw [Function.update_self]
      exact inv.index u hu
    · rw [Function.update_of_ne h]
      exact inv.index u hu
  logged g hg := by
    rcases List.mem_cons.mp hg with rfl | hg
    · exact ⟨inv.tskid t ht, inv.index t ht⟩
    · exact inv.logged g hg
  counts u k no hk := by
    change (numbersOf u (⟨t, _, _⟩ :: log))[k]? = some no at hk
    show _ = rdvnoCount (Function.update tcb t _ u).wrdvno
    by_cases h : u = t
    · subst h
      rw [numbersOf_cons_self] at hk
      rw [Function.update_self, rdvnoCount_next]
      cases k with
      | zero =>
        obtain rfl := Option.some.inj hk
        rfl
      | succ k =>
        have hold := inv.counts u k no hk
        omega
    · rw [numbersOf_cons_of_ne (Ne.symm h)] at hk
      rw [Function.update_of_ne h]
      exact inv.counts u k no hk

theorem RnoRun.exist_lt (run : RnoRun maxTskid tcb log) :
    ∀ t, (tcb t).exist = true → t < maxTskid := by
  induction run with
  | init => exact fun t ht => absurd ht Bool.false_ne_true
  | @step tcb log op run legal ih =>
    intro u hu
    cases op with
    | creTsk t domid =>
      by_cases h : u = t
      · exact h ▸ legal.1
      · exact ih u (by simpa [RnoTable.exec, h] using hu)
    | delTsk t =>
      by_cases h : u = t
      · simp [RnoTable.exec, h] at hu
      · exact ih u (by simpa [RnoTable.exec, h] using hu)
    | gen t =>
      by_cases h : u = t
      · exact h ▸ ih t legal
      · exact ih u (by simpa [RnoTable.exec, h] using hu)

theorem RnoRun.inv (hmax : maxTskid ≤ 4095) (run : RnoRun maxTskid tcb log) : RnoInv tcb log := by
  induction run with
  | init => exact .init
  | @step tcb log op run legal ih =>
    cases op with
    | creTsk t domid => exact ih.creTsk domid
    | delTsk t => exact ih.update (ih.tskid t) (ih.index t) rfl
    | gen t => exact ih.gen ((run.exist_lt t legal).trans_le hmax)

/-- The last 15 numbers have other counts, and the numbers of other tasks have other IDs. -/
theorem RnoInv.identifies (inv : RnoInv tcb log) (ht : t < 4095) : Identifies tcb log t where
  caller := inv.tskid t ht
  recent hmem := by
    obtain ⟨k, hk⟩ := List.mem_iff_getElem?.mp hmem
    rw [List.getElem?_take] at hk
    split_ifs at hk with h15
    have hcount := inv.counts t k _ hk
    have hlt := rdvnoCount_lt (tcb t).wrdvno
    omega
  others g hg hne heq := by
    obtain ⟨hid, hindex⟩ := inv.logged g hg
    rw [heq, inv.tskid t ht] at hid
    rw [← hid, inv.index t ht] at hindex
    rcases hne with hne | hne
    · exact hne hindex.symm
    · exact hne hid.symm

/-- Task 4096 of a system that has it: its number is not the one of its ID. -/
theorem rnoRun_large (hmax : 4096 ≤ maxTskid) :
    ∃ tcb log, RnoRun maxTskid tcb log ∧ (tcb 4095).exist = true ∧
      getTskidRdvno (tcb 4095).wrdvno ≠ (tcb 4095).tskid := by
  refine ⟨_, _, .step (.creTsk 4095 0) .init ⟨hmax, rfl⟩, ?_, ?_⟩
  · simp [RnoTable.exec]
  · simp only [RnoTable.exec, Function.update_self]
    decide

/-- **Rendezvous numbers.** Every number that any task generates in any run identifies its caller if
and only if the limit of the task IDs is at most 4095. -/
theorem rdvno_identifies_iff (maxTskid : ℕ) :
    (∀ tcb log t, RnoRun maxTskid tcb log → (tcb t).exist = true → Identifies tcb log t) ↔
      maxTskid ≤ 4095 := by
  constructor
  · intro hall
    by_contra hlt
    obtain ⟨tcb, log, run, hexist, hne⟩ := @rnoRun_large maxTskid (by omega)
    exact hne (hall tcb log 4095 run hexist).caller
  · intro hmax tcb log t run hexist
    exact (run.inv hmax).identifies ((run.exist_lt t hexist).trans_le hmax)

/-- With 4096 tasks, task 4096 calls under the number of no task. -/
theorem rdvno_not_identifies :
    ¬∀ maxTskid tcb log t, 1 ≤ maxTskid → RnoRun maxTskid tcb log → (tcb t).exist = true →
      Identifies tcb log t := by
  intro hall
  obtain ⟨tcb, log, run, hexist, hne⟩ := @rnoRun_large 4096 (by decide)
  exact hne (hall 4096 tcb log 4095 (by decide) run hexist).caller

end SmpTKernel
