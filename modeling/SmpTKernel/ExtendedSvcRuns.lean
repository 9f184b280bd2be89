import SmpTKernel.ExtendedSvcInv

/-!
# Runs of extended SVCs and task exceptions

Tasks call extended SVCs and raise task exceptions, from wherever they run user code; other calls
change whatever they like about task exceptions. `LockSVC` neither counts how often a lock is taken
nor finds a lock below the latest one, so the brackets match as long as no task enters a bracket for
a lock that it has.
-/

namespace SmpTKernel

open LinkedStack

inductive ExtOp
  /-- An extended SVC is called. -/
  | svc (prid : ℕ) (fncd : BitVec 32)
  | ras (prid : ℕ) (idOk ddsp : Bool) (tcb : Tsk) (texcd : ℤ)
  /-- The call under way goes on. -/
  | step (prid : ℕ) (prot : ER)
  /-- The handler or break function returns. -/
  | finish (prid : ℕ) (ercd : ER)
  | dispatch (prid : ℕ) (next : Option Tsk)
  | cre (t : Tsk) (isysmode : BitVec 16)
  | sta (t : Tsk)
  /-- What other calls, and task exception handlers, do to a task. -/
  | setTcb (t : Tsk) (tcb : TexBlock)
  /-- Subsystems are defined or deleted. -/
  | defSsy (breakfn : BitVec 16 → Bool)

/-- The first frame of a call. -/
def ExtOp.entry (maxSsyid : ℕ) : ExtOp → Option (ℕ × Frame)
  | svc prid fncd => some (prid, ExtSvc.svcIentry maxSsyid fncd)
  | ras prid idOk ddsp tcb texcd => some (prid, ExtSvc.tkRasTex idOk ddsp tcb texcd)
  | _ => none

def ExtOp.exec (numProc maxSsyid : ℕ) (s : ExtSvc) : ExtOp → Option ExtSvc
  | svc prid fncd =>
    (s.locks.ctxtsk prid).map fun t => s.setCalls t (ExtSvc.svcIentry maxSsyid fncd :: s.calls t)
  | ras prid idOk ddsp tcb texcd =>
    (s.locks.ctxtsk prid).map fun t =>
      s.setCalls t (ExtSvc.tkRasTex idOk ddsp tcb texcd :: s.calls t)
  | step prid prot => (s.locks.ctxtsk prid).bind fun t => s.step prid prot t
  | finish prid ercd => (s.locks.ctxtsk prid).bind fun t => s.finish t ercd
  | dispatch prid next =>
    some { s with locks := { s.locks with ctxtsk := Function.update s.locks.ctxtsk prid next } }
  | cre t isysmode => some { s.setTcb t (.dormant isysmode) with locks := s.locks.creTsk t }
  | sta t => some { s with locks := (s.locks.staTsk numProc t).2 }
  | setTcb t tcb => some (s.setTcb t tcb)
  | defSsy breakfn => some { s with breakfn := breakfn }

/-- User code of the task runs. -/
def ExtSvc.InUser (s : ExtSvc) (t : Tsk) : Prop := ∀ f, (s.calls t).head? = some f → f.user = true

def ExtOp.Legal (numProc : ℕ) (s : ExtSvc) : ExtOp → Prop
  | svc prid _ | ras prid _ _ _ _ => ∃ t, Executes s.locks prid t ∧ s.InUser t
  | step prid _ => ∃ t, Executes s.locks prid t ∧ ¬s.InUser t
  | finish prid _ => ∃ t, Executes s.locks prid t ∧ s.InUser t ∧ s.calls t ≠ []
  | dispatch prid next => (SvcOp.dispatch prid next).Legal numProc s.locks
  | cre t _ => (SvcOp.cre t).Legal numProc s.locks
  | sta _ | setTcb _ _ | defSsy _ => True

/-- No task enters a bracket for a lock that it holds. -/
def ExtOp.NotNested (maxSsyid : ℕ) (s : ExtSvc) (op : ExtOp) : Prop :=
  ∀ prid f, op.entry maxSsyid = some (prid, f) → ∀ t l, s.locks.ctxtsk prid = some t →
    f.lock t = some l → ¬s.locks.Holds t l

/-- Runs from the start of the system, all steps of which are `ok`. -/
inductive ExtRun (numProc maxSsyid : ℕ) (ok : ExtSvc → ExtOp → Prop) : ExtSvc → Prop
  | start (locklist : Lock → Option Lock) (tcb : Tsk → TexBlock) :
    ExtRun numProc maxSsyid ok (ExtSvc.start locklist tcb)
  | step {s s' : ExtSvc} (op : ExtOp) : ExtRun numProc maxSsyid ok s → op.Legal numProc s →
      ok s op →
      op.exec numProc maxSsyid s = some s' → ExtRun numProc maxSsyid ok s'

variable {t : Tsk} {l : Lock} {f : Frame} {rest : List Frame} {s s' : ExtSvc}
  {held : Tsk → List Lock} {prid numProc maxSsyid : ℕ}

/-! ## Steps -/

theorem entry_outside {op : ExtOp} (h : op.entry maxSsyid = some (prid, f)) : f.inside = false := by
  cases op with
  | svc prid fncd =>
    obtain ⟨-, rfl⟩ := Prod.mk.inj (Option.some.inj h)
    unfold ExtSvc.svcIentry
    dsimp only
    split_ifs <;> rfl
  | ras prid idOk ddsp tcb texcd =>
    obtain ⟨-, rfl⟩ := Prod.mk.inj (Option.some.inj h)
    unfold ExtSvc.tkRasTex
    split_ifs <;> rfl
  | _ => exact nomatch h

theorem not_wants_user (h : s.InUser t) (l : Lock) : ¬Wants t (s.calls t) l := by
  rintro ⟨f, rest, hcalls, hlocking, -⟩
  have huser := h f (by rw [hcalls, List.head?_cons])
  cases f with
  | svcHandler save => exact absurd hlocking Bool.false_ne_true
  | brkFn texflg => exact absurd hlocking Bool.false_ne_true
  | _ => exact absurd huser Bool.false_ne_true

theorem NestInv.enter (inv : NestInv s held) {op : ExtOp}
    (hentry : op.entry maxSsyid = some (prid, f)) (hc : s.locks.ctxtsk prid = some t)
    (huser : s.InUser t) (hok : op.NotNested maxSsyid s) :
    NestInv (s.setCalls t (f :: s.calls t)) held := by
  have hheld := inv.held_eq (not_wants_user huser)
  apply inv.goOn (not_wants_user huser) (brackets_cons_outside (entry_outside hentry))
  refine (inv.nested t).cons fun l hl hmem => ?_
  apply hok prid f hentry t l hc hl
  rw [inv.locks.holds_iff, hheld]
  exact hmem

/-- **A step of a call** returns, whatever the call is at. -/
theorem NestInv.step (inv : NestInv s held) (hc : s.locks.ctxtsk prid = some t)
    (hready : s.locks.state t = .ready) (huser : ¬s.InUser t) (prot : ER) :
    ∃ s' held', s.step prid prot t = some s' ∧ NestInv s' held' := by
  unfold ExtSvc.InUser at huser
  obtain ⟨f, hf⟩ := not_forall.mp huser
  obtain ⟨hhead, hnuser⟩ := Classical.not_imp.mp hf
  obtain ⟨rest, hcalls⟩ := List.head?_eq_some_iff.mp hhead
  have hn : Nested t (f :: rest) := hcalls ▸ inv.nested t
  have hgo (h : f.locking = false) {calls : List Frame}
      (hb : brackets t calls = brackets t (f :: rest)) (hn' : Nested t calls) (tcb : Tsk → TexBlock)
      (breakfn : BitVec 16 → Bool) :
      NestInv ⟨s.locks, tcb, breakfn, Function.update s.calls t calls⟩ held :=
    inv.goOn (hcalls ▸ fun _ => not_wants_cons h) (hcalls ▸ hb) hn' tcb breakfn
  unfold ExtSvc.step
  rw [hcalls]
  cases f with
  | svcLock ssid => exact inv.lockThen hc hready hcalls rfl rfl rfl rfl
  | svcTest ssid =>
    refine ⟨_, held, rfl, hgo rfl ?_ ?_ _ _⟩
    · split_ifs <;> rfl
    · split_ifs
      · exact hn.replace rfl
      · exact hn.replace rfl
  | svcRefuse => exact inv.unlockThen hc hcalls rfl rfl (hn.replace_none rfl)
  | svcBegin ssid =>
    refine ⟨_, held, rfl, hgo rfl ?_ ?_ _ _⟩
    · rfl
    · exact hn.replace rfl
  | svcUnlock save => exact inv.unlockThen hc hcalls rfl rfl (hn.replace rfl)
  | svcHandler save => exact absurd rfl hnuser
  | svcRelock save ercd => exact inv.lockThen hc hready hcalls rfl rfl rfl rfl
  | svcEnd save ercd =>
    refine ⟨_, held, rfl, hgo rfl ?_ ?_ _ _⟩
    · rfl
    · exact hn.replace rfl
  | svcUnlockEnd ercd => exact inv.unlockThen hc hcalls rfl rfl (hn.replace_none rfl)
  | rasLock tcb texcd => exact inv.lockThen hc hready hcalls rfl rfl rfl rfl
  | rasRaise tcb texcd =>
    refine ⟨_, held, rfl, hgo rfl ?_ ?_ _ _⟩
    · split_ifs <;> rfl
    · split_ifs
      · exact (hn.replace rfl).cons fun l h => nomatch h
      · exact hn.replace rfl
  | rasUnlock tcb rastex ercd =>
    refine inv.unlockThen hc hcalls rfl ?_ ?_
    · split_ifs <;> rfl
    · split_ifs
      · exact hn.replace_none rfl
      · exact hn.replace_none rfl
  | selfBreak ercd =>
    refine ⟨_, held, rfl, hgo rfl ?_ ?_ _ _⟩
    · split_ifs <;> rfl
    · split_ifs
      · exact (hn.replace_none rfl).cons fun l h => nomatch h
      · exact hn.replace_none rfl
  | brkCall tcb =>
    refine ⟨_, held, rfl, ?_⟩
    have hsame : (s.callBrkhdr t tcb).2.locks = s.locks ∧
        (s.callBrkhdr t tcb).2.calls = s.calls := by
      unfold ExtSvc.callBrkhdr
      dsimp only
      split_ifs <;> exact ⟨rfl, rfl⟩
    rcases hcall : s.callBrkhdr t tcb with ⟨_ | save, s₁⟩ <;> dsimp only <;> rw [hcall] at hsame <;>
      obtain ⟨hlocks, hcalls₁⟩ := hsame <;> dsimp only at hlocks hcalls₁
    · have hb : brackets t rest = brackets t (.brkCall tcb :: rest) := rfl
      have h := hgo rfl hb hn.2 s₁.tcb s₁.breakfn
      rwa [← hlocks, ← hcalls₁] at h
    · have hb : brackets t (.brkFn save :: rest) = brackets t (.brkCall tcb :: rest) := rfl
      have h := hgo rfl hb (hn.replace_none rfl) s₁.tcb s₁.breakfn
      rwa [← hlocks, ← hcalls₁] at h
  | brkFn texflg => exact absurd rfl hnuser
  | ret ercd =>
    refine ⟨_, held, rfl, hgo rfl ?_ hn.2 _ _⟩
    rfl

theorem NestInv.finish (inv : NestInv s held) (huser : s.InUser t) (hne : s.calls t ≠ [])
    (ercd : ER) :
    ∃ s', s.finish t ercd = some s' ∧ NestInv s' held := by
  obtain ⟨f, rest, hcalls⟩ := List.exists_cons_of_ne_nil hne
  have hn : Nested t (f :: rest) := hcalls ▸ inv.nested t
  have hf := huser f (by rw [hcalls, List.head?_cons])
  have hgo {calls : List Frame} (hb : brackets t calls = brackets t (f :: rest))
      (hn' : Nested t calls) (tcb : Tsk → TexBlock) :
      NestInv ⟨s.locks, tcb, s.breakfn, Function.update s.calls t calls⟩ held :=
    inv.goOn (not_wants_user huser) (hcalls ▸ hb) hn' tcb s.breakfn
  unfold ExtSvc.finish
  rw [hcalls]
  cases f with
  | svcHandler save =>
    refine ⟨_, rfl, hgo ?_ ?_ _⟩
    · rfl
    · exact hn.replace rfl
  | brkFn save =>
    refine ⟨_, rfl, hgo ?_ hn.2 _⟩
    rfl
  | _ => exact absurd hf Bool.false_ne_true

theorem NestInv.setLocks (inv : NestInv s held) {locks : SvcState} (hinv : SvcInv locks held)
    (hw : locks.wtskq = s.locks.wtskq) (tcb : Tsk → TexBlock) (breakfn : BitVec 16 → Bool) :
    NestInv ⟨locks, tcb, breakfn, s.calls⟩ held :=
  ⟨hinv, inv.nested, inv.opened, fun l queue t hq => inv.waits l queue t (hw ▸ hq)⟩

/-- Every legal operation that does not nest a lock returns, with the brackets in order. -/
theorem NestInv.exec (inv : NestInv s held) {op : ExtOp} (hl : op.Legal numProc s)
    (hok : op.NotNested maxSsyid s) :
    ∃ s' held', op.exec numProc maxSsyid s = some s' ∧ NestInv s' held' := by
  cases op with
  | svc prid fncd =>
    obtain ⟨t, ⟨hc, -⟩, huser⟩ := hl
    refine ⟨_, held, ?_, inv.enter rfl hc huser hok⟩
    rw [ExtOp.exec, hc, Option.map_some]
  | ras prid idOk ddsp tcb texcd =>
    obtain ⟨t, ⟨hc, -⟩, huser⟩ := hl
    refine ⟨_, held, ?_, inv.enter rfl hc huser hok⟩
    rw [ExtOp.exec, hc, Option.map_some]
  | step prid prot =>
    obtain ⟨t, ⟨hc, hready⟩, huser⟩ := hl
    rw [ExtOp.exec, hc, Option.bind_some]
    exact inv.step hc hready huser prot
  | finish prid ercd =>
    obtain ⟨t, ⟨hc, -⟩, huser, hne⟩ := hl
    obtain ⟨s', heq, hinv⟩ := inv.finish huser hne ercd
    rw [ExtOp.exec, hc, Option.bind_some]
    exact ⟨s', held, heq, hinv⟩
  | dispatch prid next =>
    exact ⟨_, held, rfl, inv.setLocks (inv.locks.setCtxtsk (Function.update s.locks.ctxtsk prid
      next)) rfl _ _⟩
  | cre t isysmode =>
    have hnil : held t = [] := inv.locks.nil_of_not_alive fun h => h.1 hl.1
    have hnot : s.locks.NotWaiting t := inv.locks.notWaiting (by rw [hl.1]; decide)
    have hinv := inv.locks.ended hnot hnil .dormant false s.locks.ctxtsk
    exact ⟨_, held, rfl, inv.setLocks hinv rfl _ _⟩
  | sta t =>
    obtain ⟨hinv, hw⟩ := inv.locks.staTsk numProc t
    exact ⟨_, held, rfl, inv.setLocks hinv hw _ _⟩
  | setTcb t tcb => exact ⟨_, held, rfl, inv.setLocks inv.locks rfl _ _⟩
  | defSsy breakfn => exact ⟨_, held, rfl, inv.setLocks inv.locks rfl _ _⟩

/-! ## Runs -/

theorem ExtRun.inv (run : ExtRun numProc maxSsyid (ExtOp.NotNested maxSsyid) s) :
    ∃ held, NestInv s held := by
  induction run with
  | start locklist tcb => exact ⟨_, nestInv_start locklist tcb⟩
  | step op _ hl hok heq ih =>
    obtain ⟨held, inv⟩ := ih
    obtain ⟨s', held', heq', inv'⟩ := inv.exec hl hok
    obtain rfl := Option.some.inj (heq.symm.trans heq')
    exact ⟨held', inv'⟩

/-- The brackets match: what `UnlockSVC` is about to release is the lock of the call it ends, a call
that has locked holds its lock, and no task waits for a lock it holds. -/
structure NestsRight (s : ExtSvc) : Prop where
  unlocks : ∀ t f rest, s.calls t = f :: rest → f.unlocking = true →
    ∃ l, f.lock t = some l ∧ s.locks.svclocked t = some l
  held : ∀ t l, l ∈ brackets t (s.calls t) → s.locks.Holds t l
  waits : ∀ t l queue, s.locks.wtskq l = some queue → t ∈ queue → ¬s.locks.Holds t l

theorem NestInv.right (inv : NestInv s held) : NestsRight s := by
  refine ⟨fun t f rest hcalls hunlock => ?_, fun t l hl => ?_, fun t l queue hq ht hholds => ?_⟩
  · have hin := Frame.inside_of_unlocking hunlock
    have hnot (l : Lock) : ¬Wants t (s.calls t) l :=
      hcalls ▸ not_wants_cons (Frame.not_locking_of_inside hin)
    obtain ⟨l, hl⟩ := Frame.lock_of_inside hin t
    refine ⟨l, hl, ?_⟩
    rw [inv.locks.svclocked_eq, inv.held_eq hnot, hcalls, brackets_cons_inside hin hl,
      List.head?_cons]
  · rw [inv.locks.holds_iff]
    rcases inv.opened t with h | ⟨l', -, h⟩
    · rwa [h]
    · rw [h]
      exact List.mem_cons_of_mem l' hl
  · obtain ⟨hwants, hheld⟩ := inv.waits l queue t hq ht
    rw [inv.locks.holds_iff, hheld] at hholds
    exact hwants.not_mem (inv.nested t) hholds

/-- **SVC locks nest.** In every run in which no task calls `LockSVC` for a lock that is on its own
list, the brackets match in every state, and every call can go on. -/
theorem extRun_nests (run : ExtRun numProc maxSsyid (ExtOp.NotNested maxSsyid) s) :
    NestsRight s ∧ ∀ op : ExtOp, op.Legal numProc s → op.NotNested maxSsyid s →
      ∃ s', op.exec numProc maxSsyid s = some s' := by
  obtain ⟨held, inv⟩ := run.inv
  refine ⟨inv.right, fun op hl hok => ?_⟩
  obtain ⟨s', -, heq, -⟩ := inv.exec hl hok
  exact ⟨s', heq⟩

/-- Task 1 runs on processor 0, with a task exception enabled, and has just called an extended SVC
that has a break function. -/
def svcCalled : ExtSvc :=
  let s := ExtSvc.start (fun _ => none) fun _ => .dormant 0
  let s := { s.setTcb 1 (.dormant 0) with locks := s.locks.creTsk 1 }
  let s := { s with locks := (s.locks.staTsk 1 1).2 }
  let s := { s with locks := { s.locks with ctxtsk := Function.update s.locks.ctxtsk 0 (some 1) } }
  let s := s.setTcb 1 { TexBlock.dormant 0 with texhdr := true, texmask := 2 }
  let s := { s with breakfn := fun _ => true }
  s.setCalls 1 [.svcLock 1]

theorem not_holds_of_none {s : SvcState} (h : s.svclocked t = none) : ¬s.Holds t l := by
  rintro ⟨ls, hls, hl⟩
  rw [List.head?_eq_none_iff.mp (hls.top.symm.trans h)] at hl
  exact List.not_mem_nil hl

theorem extRun_svcCalled {ok : ExtSvc → ExtOp → Prop} (hok : ∀ s op, op.NotNested 255 s → ok s op) :
    ExtRun 1 255 ok svcCalled := by
  have hno {s : ExtSvc} {op : ExtOp} (h : op.entry 255 = none) : ok s op :=
    hok s op fun prid f hf => absurd (h.symm.trans hf) (Option.some_ne_none _).symm
  have run := @ExtRun.start 1 255 ok (fun _ => none) fun _ => .dormant 0
  have run := run.step (.cre 1 0) ⟨rfl, rfl⟩ (hno rfl) rfl
  have run := run.step (.sta 1) trivial (hno rfl) rfl
  have run := run.step (.dispatch 0 (some 1)) (fun t ht => by
    obtain rfl := Option.some.inj ht
    exact ⟨rfl, rfl, by decide⟩) (hno rfl) rfl
  have run := run.step (.setTcb 1 { TexBlock.dormant 0 with texhdr := true, texmask := 2 }) trivial
    (hno rfl) rfl
  have run := run.step (.defSsy fun _ => true) trivial (hno rfl) rfl
  refine run.step (.svc 0 1) ⟨1, ⟨rfl, rfl⟩, fun f hf => nomatch hf⟩ (hok _ _ ?_) rfl
  intro prid f hf t l hc _
  obtain ⟨rfl, -⟩ := Prod.mk.inj (Option.some.inj hf)
  obtain rfl := Option.some.inj hc
  exact not_holds_of_none rfl

theorem ExtRun.goOn {ok : ExtSvc → ExtOp → Prop} (run : ExtRun 1 255 ok s)
    (hex : Executes s.locks 0 1) (hf : (s.calls 1).head? = some f) (huser : f.user = false)
    (hok : ok s (.step 0 E_OK)) (heq : (ExtOp.step 0 E_OK).exec 1 255 s = some s') :
    ExtRun 1 255 ok s' := by
  refine run.step (.step 0 E_OK) ⟨1, hex, fun h => ?_⟩ hok heq
  exact absurd (huser.symm.trans (h f hf)) Bool.false_ne_true

/-- Inside the first bracket of the extended SVC. -/
theorem extRun_nests_locked :
    ∃ s : ExtSvc, s.calls 1 = [.svcTest 1] ∧ s.locks.svclocked 1 = some 1 ∧ NestsRight s ∧
    ∃ s', (ExtOp.step 0 E_OK).exec 1 255 s = some s' := by
  have run := extRun_svcCalled fun s op h => h
  have hnone {s : ExtSvc} : (ExtOp.step 0 E_OK).NotNested 255 s := fun _ _ h => nomatch h
  have run := run.goOn ⟨rfl, rfl⟩ rfl rfl hnone rfl
  obtain ⟨hright, hgo⟩ := extRun_nests run
  exact ⟨_, rfl, rfl, hright, hgo _ ⟨1, ⟨rfl, rfl⟩, fun h =>
    absurd (h _ rfl) Bool.false_ne_true⟩ hnone⟩

/-- From the handler task 1 raises a task exception for itself, and its break function does the
same. The inner call releases the lock; the outer one gets to `UnlockSVC` with an empty list, and
fails. -/
theorem extRun_loses_lock : ∃ s : ExtSvc, ExtRun 1 255 (fun _ _ => True) s ∧
    (∃ ercd rest, s.calls 1 = .rasUnlock 1 true ercd :: rest) ∧
      s.locks.svclocked 1 = none ∧ ¬NestsRight s ∧
      (ExtOp.step 0 E_OK).Legal 1 s ∧ (ExtOp.step 0 E_OK).exec 1 255 s = none := by
  have run := @extRun_svcCalled (fun _ _ => True) fun _ _ _ => trivial
  have run := run.goOn ⟨rfl, rfl⟩ rfl rfl trivial rfl
  have run := run.goOn ⟨rfl, rfl⟩ rfl rfl trivial rfl
  have run := run.goOn ⟨rfl, rfl⟩ rfl rfl trivial rfl
  have run := run.goOn ⟨rfl, rfl⟩ rfl rfl trivial rfl
  -- the handler
  have run := run.step (.ras 0 true false 1 1) ⟨1, ⟨rfl, rfl⟩, fun f hf => Option.some.inj hf ▸ rfl⟩
    trivial rfl
  have run := run.goOn ⟨rfl, rfl⟩ rfl rfl trivial rfl
  have run := run.goOn ⟨rfl, rfl⟩ rfl rfl trivial rfl
  have run := run.goOn ⟨rfl, rfl⟩ rfl rfl trivial rfl
  -- the break function
  have run := run.step (.ras 0 true false 1 1) ⟨1, ⟨rfl, rfl⟩, fun f hf => Option.some.inj hf ▸ rfl⟩
    trivial rfl
  have run := run.goOn ⟨rfl, rfl⟩ rfl rfl trivial rfl
  have run := run.goOn ⟨rfl, rfl⟩ rfl rfl trivial rfl
  have run := run.goOn ⟨rfl, rfl⟩ rfl rfl trivial rfl
  have run := run.goOn ⟨rfl, rfl⟩ rfl rfl trivial rfl
  have run := run.goOn ⟨rfl, rfl⟩ rfl rfl trivial rfl
  have run := run.goOn ⟨rfl, rfl⟩ rfl rfl trivial rfl
  have run := run.goOn ⟨rfl, rfl⟩ rfl rfl trivial rfl
  have run :=
    run.step (.finish 0 E_OK) ⟨1, ⟨rfl, rfl⟩, fun f hf => Option.some.inj hf ▸ rfl,
      List.cons_ne_nil _ _⟩
    trivial rfl
  refine ⟨_, run, ⟨_, _, rfl⟩, rfl, fun h => ?_, ⟨1, ⟨rfl, rfl⟩, fun h =>
    absurd (h _ rfl) Bool.false_ne_true⟩, rfl⟩
  obtain ⟨l, -, hl⟩ := h.unlocks 1 _ _ rfl rfl
  exact nomatch hl

end SmpTKernel
