import SmpTKernel.KernelBoost

/-!
# The calls that change no priority

All calls but those on mutexes, `tk_chg_pri`, those that create, delete, start or end tasks, and the
forced releases of waits.
-/

namespace SmpTKernel

open Kern

variable {s s' s₁ s₂ : Kern} {t u : Tsk} {m id : ID} {q : QueueId} {k : WaitKind} {chk : ER}

theorem Steady.refl (s : Kern) : Steady s s := ⟨rfl, fun _ => rfl⟩

theorem Steady.trans (h₁ : Steady s s₁) (h₂ : Steady s₁ s₂) : Steady s s₂ :=
  ⟨h₂.pri.trans h₁.pri, fun m => (h₂.queue m).trans (h₁.queue m)⟩

theorem Steady.upd (t : Tsk) (f : TaskCB → TaskCB)
    (hf : (f (s.tcb t)).priority = (s.tcb t).priority) :
    Steady s (s.upd t f) := ⟨funext (pri_upd hf), fun _ => rfl⟩

theorem Steady.note (e : KernEvent) : Steady s (s.note e) := ⟨rfl, fun _ => rfl⟩

theorem Steady.toRdv (t : Tsk) (atr : ℕ) : Steady s (s.toRdv t atr) := ⟨rfl, fun _ => rfl⟩

theorem Steady.release (ht : ∀ m, t ∉ s.queue (.mtx, m)) : Steady s (s.waitRelease t) := by
  refine ⟨waitRelease_pri s t, fun m => ?_⟩
  rw [waitRelease_queue]
  exact List.erase_of_not_mem (ht m)

theorem Steady.cancel (ht : ∀ m, t ∉ s.queue (.mtx, m)) : Steady s (s.waitCancel t) :=
  (Steady.upd t (fun c => { c with timed := false }) rfl).trans ⟨rfl, fun m =>
    List.erase_of_not_mem (ht m)⟩

theorem Steady.setWait (t : Tsk) (w : WaitSpec) (wid : ID) : Steady s (s.setWait t w wid) :=
  .upd t _ rfl

theorem Steady.enterWait (t : Tsk) (timed : Bool) (atr : ℕ) : Steady s (s.enterWait t timed atr) :=
  .upd t _ rfl

theorem Steady.wakeup (h : s.Apart) (hq : q.1 ≠ .mtx) (n : ℕ) : Steady s (wakeup q n s) :=
  ⟨wakeup_pri q n s, fun _ => wakeup_mtx_queue n h hq⟩

theorem Steady.serve (h : s.Apart) (hq : q.1 ≠ .mtx) (served : List Tsk) :
    Steady s (s.serve q served) := by
  unfold Kern.serve
  induction served generalizing s with
  | nil => exact .refl s
  | cons u us ih =>
    rw [List.foldl_cons]
    split_ifs with hu
    · exact (Steady.release (h q hq u hu)).trans (ih (Apart.sub h (waitRelease_sub s u)))
    · exact ih h

theorem Steady.relWaiHook (h : s.Apart) (ht : (s.tcb t).wspec.kind ≠ some .mtx) (hook : Hook) :
    Steady s (s.relWaiHook t hook) := by
  unfold Kern.relWaiHook
  split
  · next k tpri hspec =>
    rw [hspec] at ht
    split_ifs
    · exact .wakeup h (fun hk => ht (congrArg some hk)) _
    · exact .refl s
  · next hspec =>
    rw [hspec] at ht
    exact absurd rfl ht
  · exact .refl s

theorem released_wspec (c : TaskCB) : c.released.wspec = c.wspec := by
  unfold TaskCB.released
  split_ifs <;> rfl

theorem Steady.releaseNg (h : s.Apart) (hmtx : ∀ m, t ∉ s.queue (.mtx, m))
    (ht : (s.tcb t).wspec.kind ≠ some .mtx) (hook : Hook) : Steady s (s.waitReleaseNg t hook) := by
  refine (Steady.release hmtx).trans (.relWaiHook (Apart.sub h (waitRelease_sub s t)) ?_ hook)
  rwa [waitRelease_self, released_wspec]

/-! ## Waits that begin -/

theorem Steady.alone (t : Tsk) (w : WaitSpec) (timed : Bool) (atr : ℕ) :
    Steady s (s.waitAlone t w timed atr) :=
  (Steady.setWait t w 0).trans (.enterWait t timed atr)

theorem Steady.enqueue (t : Tsk) (hq : q.1 ≠ .mtx) (tpri : Bool) : Steady s (s.enqueue t q tpri) :=
  ⟨rfl, fun _ => setQueue_of_ne (fun e => hq (congrArg Prod.fst e).symm) _⟩

theorem Steady.makeWait (t : Tsk) (hk : k ≠ .mtx) (id : ID) (atr : ℕ) (tmout : ℤ) :
    Steady s (s.gcbMakeWait t k id atr tmout) :=
  ((Steady.setWait t (k.wspec atr) id).trans (.enterWait t _ atr)).trans (.enqueue t hk _)

theorem Steady.makeWaitWithDiswai (t : Tsk) (hk : k ≠ .mtx) (id : ID) (atr : ℕ) (tmout : ℤ) :
    Steady s (s.gcbMakeWaitWithDiswai t k id atr tmout).1 := by
  unfold gcbMakeWaitWithDiswai
  split_ifs
  · exact .refl s
  · exact .refl s
  · exact .makeWait t hk id atr tmout

theorem Steady.toCal (u : Tsk) (id : ID) (atr : ℕ) : Steady s (s.toCal u id atr) := by
  have hset : Steady s ((s.setWait u (WaitKind.wspec atr .cal) id).upd u fun c =>
      { c with nodiswai := atr &&& TA_NODISWAI ≠ 0, timed := false }) :=
    (Steady.setWait u (WaitKind.wspec atr .cal) id).trans (.upd u _ rfl)
  exact hset.trans (.enqueue u WaitKind.noConfusion _)

/-! ## The calls -/

/-- The calls that leave the mutexes alone and release no wait by force. -/
def KernOp.changesNoPriority : KernOp → Bool
  | relWai _ _ _ | disWai _ _ _ _ | timeout _ _ => false
  | op => op.leavesMutexes

theorem Steady.waiObj (t : Tsk) (hk : k ≠ .mtx) (id : ID) (tmout : ℤ) (got : Bool) (chk : ER) :
    Steady s (s.waiObj t k id tmout got chk).1 := by
  refine onObj_ind (.refl s) fun atr _ => ?_
  split_ifs
  · exact .refl s
  · exact .refl s
  · exact .makeWaitWithDiswai t hk id atr tmout

theorem Steady.signal (h : s.Apart) (hk : k ≠ .mtx) (id : ID) (served : List Tsk) (chk : ER) :
    Steady s (s.signal k id served chk).1 := onObj_ind (.refl s) fun _ _ => .serve h hk served

theorem Steady.creObj {k : ObjKind} (hk : k ≠ .mtx) (id : ID) (atr : ℕ) (chk : ER) :
    Steady s (s.creObj k id atr chk).1 := by
  refine checked_ind (.refl s) fun _ => ?_
  split_ifs
  · exact .refl s
  · exact ⟨rfl, fun m => if_neg fun e => hk e.1.symm⟩

theorem Steady.delObj {k : ObjKind} (h : s.Apart) (hk : k ≠ .mtx) (id : ID) (chk : ER) :
    Steady s (s.delObj k id chk).1 := by
  refine onObj_ind (.refl s) fun _ _ => ?_
  have hfold : ∀ (ws : List WaitKind) (s : Kern), s.Apart → (∀ w ∈ ws, w ≠ .mtx) →
      Steady s (ws.foldl (fun s w => s.waitDelete (w, id)) s) := by
    intro ws
    induction ws with
    | nil => exact fun s _ _ => .refl s
    | cons w ws ih =>
      intro s h hws
      have hsub : (s.waitDelete (w, id)).Apart :=
        Apart.sub h fun q => (wakeup_queue_sublist ..).subset
      exact (Steady.wakeup h (hws w List.mem_cons_self) _).trans
        (ih _ hsub fun w' hw' => hws w' (List.mem_cons_of_mem w hw'))
  refine (hfold k.queues s h fun w hw => ?_).trans ⟨rfl, fun _ => rfl⟩
  rintro rfl
  cases k <;> simp [ObjKind.queues] at hw hk

theorem Steady.sndMbf (h : s.Apart) (caller : Option Tsk) (id : ID) (tmout : ℤ) (stored : Bool)
    (chk : ER) :
    Steady s (s.sndMbf caller id tmout stored chk).1 := by
  refine onObj_ind (.refl s) fun atr _ => ?_
  split
  · exact .refl s
  · split
    · next u us hq =>
        exact .release (h (.rmbf, id) WaitKind.noConfusion u (hq ▸ List.mem_cons_self))
    · split_ifs
      · exact .refl s
      · exact .refl s
      · split
        · exact .refl s
        · exact .makeWaitWithDiswai _ WaitKind.noConfusion ..

theorem Steady.rcvMbf (h : s.Apart) (t : Tsk) (hook : Hook) (id : ID) (tmout : ℤ) (read : Bool)
    (chk : ER) :
    Steady s (s.rcvMbf t hook id tmout read chk).1 := by
  refine onObj_ind (.refl s) fun atr _ => ?_
  split
  · exact .refl s
  · split
    · exact .wakeup h WaitKind.noConfusion _
    · split
      · next u us hq =>
        exact (Steady.release (h (.smbf, id) WaitKind.noConfusion u
          (hq ▸ List.mem_cons_self))).trans
          (.wakeup (Apart.sub h (waitRelease_sub s u)) WaitKind.noConfusion _)
      · split_ifs
        · exact .refl s
        · exact .makeWait t WaitKind.noConfusion ..

theorem Steady.calPor (h : s.Apart) (t : Tsk) (id : ID) (tmout : ℤ) (found : Option Tsk)
    (hfound : ∀ u ∈ found, u ∈ s.queue (.acp, id)) (chk : ER) :
    Steady s (s.calPor t id tmout found chk).1 := by
  refine onObj_ind (.refl s) fun atr _ => ?_
  split
  · exact .makeWaitWithDiswai t WaitKind.noConfusion ..
  · next u =>
    have hrelease : Steady s (s.waitRelease u) :=
      .release (h (.acp, id) WaitKind.noConfusion u (hfound u rfl))
    dsimp only
    split_ifs
    · exact .refl s
    · exact hrelease
    · exact (hrelease.trans (.alone t _ _ _)).trans (.toRdv ..)

theorem Steady.acpPor (link : LinkInv True (none, s)) (t : Tsk) (hook : Hook) (id : ID) (tmout : ℤ)
    (found : Option Tsk) (hfound : ∀ u ∈ found, u ∈ s.queue (.cal, id)) (chk : ER) :
    Steady s (s.acpPor t hook id tmout found chk).1 := by
  refine onObj_ind (.refl s) fun atr _ => ?_
  split
  · exact .refl s
  · split
    · split_ifs
      · exact .refl s
      · exact .makeWait t WaitKind.noConfusion ..
    · next u =>
      have hu := hfound u rfl
      have hmtx := link.apart (.cal, id) WaitKind.noConfusion u hu
      split_ifs
      · refine .releaseNg link.apart hmtx ?_ hook
        rw [(waitQueue_eq (link.waits u _ (.inl trivial) hu).2).1]
        nofun
      · exact ((Steady.cancel hmtx).trans (.upd u _ rfl)).trans (.toRdv ..)

theorem Steady.fwdPor (link : LinkInv True (none, s)) (hook : Hook) (id : ID) (u : Tsk)
    (found : Option Tsk) (hfound : ∀ v ∈ found, v ∈ s.queue (.acp, id)) (chk : ER) :
    Steady s (s.fwdPor hook id u found chk).1 := by
  refine onObj_ind (.refl s) fun atr _ => ?_
  by_cases hrdv : (s.tcb u).state.isWait = false ∨ (s.tcb u).wspec ≠ .rdv
  · rw [if_pos hrdv]
    exact .refl s
  rw [if_neg hrdv]
  have hspec : (s.tcb u).wspec = .rdv := not_not.mp (not_or.mp hrdv).2
  have hkind : (s.tcb u).wspec.kind ≠ some .mtx := by
    rw [hspec]
    nofun
  have hmem (q : QueueId) : u ∉ s.queue q := fun hu => by
    have hqueue := (link.waits u q (.inl trivial) hu).2
    rw [waitQueue_eq_none.mpr (by rw [hspec]; rfl)] at hqueue
    cases hqueue
  split_ifs
  · exact .releaseNg link.apart (fun m => hmem _) hkind hook
  · split
    · exact .toCal u id atr
    · next v =>
      have hv := hfound v rfl
      have hrelease : Steady s (s.waitRelease v) :=
        .release (link.apart (.acp, id) WaitKind.noConfusion v hv)
      have hne : u ≠ v := fun e => hmem _ (e ▸ hv)
      dsimp only
      split_ifs
      · refine hrelease.trans (.releaseNg (Apart.sub link.apart (waitRelease_sub s v))
          (fun m hm => ?_) ?_ hook)
        · exact hmem _ (waitRelease_sub s v _ hm)
        · rwa [waitRelease_of_ne hne]
      · exact (hrelease.trans (.upd u _ rfl)).trans (.toRdv ..)

theorem resumed_priority (c : TaskCB) : c.resumed.priority = c.priority := by
  unfold TaskCB.resumed
  split_ifs <;> rfl

/-- A task that waits for something else is in no queue of a mutex. -/
theorem LinkInv.not_mem_kind (link : LinkInv True (none, s)) (ht : (s.tcb t).wspec.kind ≠ some .mtx)
    (m : ID) :
    t ∉ s.queue (.mtx, m) := fun hm => ht (waitQueue_eq (link.waits t _ (.inl trivial) hm).2).1

theorem tskwait_of_mtx {w : WaitSpec} (h : w.kind = some .mtx) : w.tskwait = TTW_MTX := by
  cases w with
  | que k tpri =>
    cases h
    rfl
  | mtxInherit => rfl
  | _ => cases h

theorem Steady.exec (link : LinkInv True (none, s)) {op : KernOp} (fits : op.Fits s)
    (hop : op.changesNoPriority) :
    Steady s (op.exec s).1 := by
  have h := link.apart
  cases op with
  | enaWai t chk =>
    exact onTask_ind (.refl s) fun _ _ => .upd t (fun c => { c with waitmask := 0 }) rfl
  | svcMask t waitmask => exact .upd t (fun c => { c with waitmask := waitmask }) rfl
  | susTsk t chk =>
    refine onTask_ind (.refl s) fun _ _ => ?_
    split_ifs
    · exact .refl s
    · dsimp only
      rw [suspendTask_eq]
      exact (Steady.upd t _ rfl).trans (.note _)
  | rsmTsk t chk =>
    refine onTask_ind (.refl s) fun _ _ => ?_
    split_ifs
    · dsimp only
      rw [resumeTask_eq]
      exact (Steady.upd t _ (resumed_priority _)).trans (.note _)
    · exact .refl s
  | frsmTsk t chk =>
    refine onTask_ind (.refl s) fun _ _ => ?_
    split_ifs
    · dsimp only
      rw [forceTask_eq]
      exact (Steady.upd t _ rfl).trans (.note _)
    · exact .refl s
  | slpTsk t tmout chk =>
    refine checked_ind (.refl s) fun _ => ?_
    split_ifs
    · exact .refl s
    · exact (Steady.upd t _ rfl).trans (.note _)
    · exact .refl s
    · exact .alone t _ _ _
  | wupTsk t chk =>
    refine onTask_ind (.refl s) fun _ _ => ?_
    split_ifs with hslp
    · refine ((Steady.release (link.not_mem_kind ?_)).trans (.note _)).trans (.note _)
      rw [hslp.2]
      nofun
    · exact .refl s
    · exact (Steady.upd t _ rfl).trans (.note _)
  | canWup t chk => exact onTask_ind (.refl s) fun _ _ => (Steady.upd t _ rfl).trans (.note _)
  | waiTev t waiptn tmout chk =>
    refine checked_ind (.refl s) fun _ => ?_
    split_ifs
    · exact .refl s
    · exact .upd t (fun c => { c with tskevt := _ }) rfl
    · exact .refl s
    · exact .alone t _ _ _
  | sigTev t tskevt chk =>
    refine onTask_ind (.refl s) fun _ _ => ?_
    dsimp only
    split_ifs with hw
    · refine .release (link.not_mem_kind fun hk => hw.2 ?_)
      rw [tskwait_of_mtx hk, Nat.and_comm]
      exact shiftLeft_and_tskwait _
    · exact .upd t (fun c => { c with tskevt := _ }) rfl
  | dlyTsk t dlytim chk =>
    refine checked_ind (.refl s) fun _ => ?_
    split_ifs
    · exact .refl s
    · exact .refl s
    · exact .alone t _ _ _
  | creObj k id atr chk => exact .creObj fits id atr chk
  | delObj k id chk => exact .delObj h fits id chk
  | waiSem t id tmout got chk => exact .waiObj t WaitKind.noConfusion id tmout got chk
  | waiFlg t id tmout got chk => exact .waiObj t WaitKind.noConfusion id tmout got chk
  | rcvMbx t id tmout got chk => exact .waiObj t WaitKind.noConfusion id tmout got chk
  | getMpf t id tmout got chk => exact .waiObj t WaitKind.noConfusion id tmout got chk
  | getMpl t id tmout got chk => exact .waiObj t WaitKind.noConfusion id tmout got chk
  | sigSem id served chk => exact .signal h WaitKind.noConfusion id served chk
  | setFlg id served chk => exact .signal h WaitKind.noConfusion id served chk
  | sndMbx id served chk => exact .signal h WaitKind.noConfusion id served chk
  | relMpf id served chk => exact .signal h WaitKind.noConfusion id served chk
  | relMpl id served chk => exact .signal h WaitKind.noConfusion id served chk
  | sndMbf caller id tmout stored chk => exact .sndMbf h caller id tmout stored chk
  | rcvMbf t hook id tmout read chk => exact .rcvMbf h t hook id tmout read chk
  | calPor t id tmout found chk => exact .calPor h t id tmout found fits chk
  | acpPor t hook id tmout found chk => exact .acpPor link t hook id tmout found fits chk
  | fwdPor hook id u found chk => exact .fwdPor link hook id u found fits chk
  | rplRdv u chk =>
    refine checked_ind (.refl s) fun _ => ?_
    split_ifs with hrdv
    · exact .refl s
    · refine .release (link.not_mem_kind ?_)
      rw [not_not.mp (not_or.mp hrdv).2]
      nofun
  | _ => exact absurd hop Bool.false_ne_true

end SmpTKernel
