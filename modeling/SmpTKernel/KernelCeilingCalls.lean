import SmpTKernel.KernelCeiling

/-!
# The calls that leave the mutexes alone

All calls but those that create, delete, start or end tasks, `tk_chg_pri`, and the calls on mutexes.
-/

namespace SmpTKernel

open Kern

variable {s : Kern} {t : Tsk} {call : Kern × Option ER} {chk : ER} {P : Kern → Prop}

/-! ## The checks a call begins with -/

theorem checked_ind (hs : P s) (h : chk = E_OK → P call.1) : P (s.checked chk call).1 := by
  unfold checked
  split_ifs with hchk
  · exact hs
  · exact h (not_not.mp hchk)

theorem onTask_ind {dormant : ER} (hs : P s)
    (h : (s.tcb t).state ≠ .nonexist → ((s.tcb t).state = .dormant → dormant = E_OK) → P call.1) :
    P (s.onTask t chk dormant call).1 := by
  refine checked_ind hs fun _ => ?_
  split_ifs with hnone hdormant
  · exact hs
  · exact hs
  · exact h hnone fun hd => not_not.mp fun hne => hdormant ⟨hd, hne⟩

theorem onObj_ind {k : ObjKind} {id : ID} {call : ℕ → Kern × Option ER} (hs : P s)
    (h : ∀ atr, s.objatr (k, id) = some atr → P (call atr).1) : P (s.onObj k id chk call).1 := by
  refine checked_ind hs fun _ => ?_
  split
  · exact hs
  · next atr hatr => exact h atr hatr

/-! ## The calls -/

theorem MtxKeeps.relWai (t : Tsk) (h : Hook) (chk : ER) : MtxKeeps s (s.relWai t h chk).1 := by
  refine onTask_ind (.refl s) fun _ _ => ?_
  split_ifs with hw
  · exact .releaseNg h hw
  · exact .refl s

theorem MtxKeeps.disWai (t : Tsk) (h : Hook) (waitmask : ℕ) (chk : ER) :
    MtxKeeps s (s.disWai t h waitmask chk).1 := by
  refine onTask_ind (.refl s) fun _ _ => ?_
  have hmask : MtxKeeps s (s.upd t fun c => { c with waitmask := waitmask }) :=
    .upd t _ ⟨rfl, rfl, rfl, rfl, rfl⟩
  dsimp only
  split_ifs with hw
  · exact hmask.trans (.releaseNg h hw)
  · exact hmask
  · exact hmask

theorem MtxKeeps.enaWai (t : Tsk) (chk : ER) : MtxKeeps s (s.enaWai t chk).1 :=
  onTask_ind (.refl s) fun _ _ => .upd t (fun c => { c with waitmask := 0 }) ⟨rfl, rfl,
    rfl, rfl, rfl⟩

theorem MtxKeeps.svcMask (t : Tsk) (waitmask : ℕ) : MtxKeeps s (s.svcMask t waitmask).1 :=
  .upd t (fun c => { c with waitmask := waitmask }) ⟨rfl, rfl, rfl, rfl, rfl⟩

theorem MtxKeeps.susTsk (t : Tsk) (chk : ER) : MtxKeeps s (s.susTsk t chk).1 := by
  refine onTask_ind (.refl s) fun hn hd => ?_
  have halive : (s.tcb t).Alive := ⟨hn, fun h => absurd (hd h) (by decide)⟩
  split_ifs
  · exact .refl s
  · dsimp only
    rw [suspendTask_eq]
    exact (MtxKeeps.held (TaskCB.suspended_held _) halive (suspended_alive halive) ⟨rfl, rfl⟩).trans
      (.note _)

theorem resumed_fields (c : TaskCB) :
    c.resumed.mtxlist = c.mtxlist ∧ c.resumed.bpriority = c.bpriority := by
  unfold TaskCB.resumed
  split_ifs <;> exact ⟨rfl, rfl⟩

theorem MtxKeeps.rsmTsk (t : Tsk) (chk : ER) : MtxKeeps s (s.rsmTsk t chk).1 := by
  refine onTask_ind (.refl s) fun _ _ => ?_
  split_ifs with hs
  · dsimp only
    rw [resumeTask_eq]
    exact (MtxKeeps.held (TaskCB.resumed_held hs) (alive_of_suspended hs) (resumed_alive hs)
      (resumed_fields _)).trans (.note _)
  · exact .refl s

theorem MtxKeeps.frsmTsk (t : Tsk) (chk : ER) : MtxKeeps s (s.frsmTsk t chk).1 := by
  refine onTask_ind (.refl s) fun _ _ => ?_
  split_ifs with hs
  · dsimp only
    rw [forceTask_eq]
    exact (MtxKeeps.held (TaskCB.forced_held hs) (alive_of_suspended hs) (unsuspended_alive _) ⟨rfl,
      rfl⟩).trans
      (.note _)
  · exact .refl s

theorem MtxKeeps.slpTsk (runs : s.Runs t) (tmout : ℤ) (chk : ER) :
    MtxKeeps s (s.slpTsk t tmout chk).1 := by
  refine checked_ind (.refl s) fun _ => ?_
  split_ifs
  · exact .refl s
  · exact (MtxKeeps.upd t _ ⟨rfl, rfl, rfl, rfl, rfl⟩).trans (.note _)
  · exact .refl s
  · exact .alone runs _ _ rfl

theorem MtxKeeps.wupTsk (t : Tsk) (chk : ER) : MtxKeeps s (s.wupTsk t chk).1 := by
  refine onTask_ind (.refl s) fun _ _ => ?_
  split_ifs with hslp
  · exact ((MtxKeeps.release (.inr hslp.1)).trans (.note _)).trans (.note _)
  · exact .refl s
  · exact (MtxKeeps.upd t _ ⟨rfl, rfl, rfl, rfl, rfl⟩).trans (.note _)

theorem MtxKeeps.canWup (t : Tsk) (chk : ER) : MtxKeeps s (s.canWup t chk).1 :=
  onTask_ind (.refl s) fun _ _ => (MtxKeeps.upd t _ ⟨rfl, rfl, rfl, rfl, rfl⟩).trans (.note _)

theorem MtxKeeps.waiTev (runs : s.Runs t) (waiptn : ℕ) (tmout : ℤ) (chk : ER) :
    MtxKeeps s (s.waiTev t waiptn tmout chk).1 := by
  refine checked_ind (.refl s) fun _ => ?_
  dsimp only
  split_ifs
  · exact .refl s
  · exact .upd t (fun c => { c with tskevt := _ }) ⟨rfl, rfl, rfl, rfl, rfl⟩
  · exact .refl s
  · exact .alone runs _ _ rfl

theorem MtxKeeps.sigTev (t : Tsk) (tskevt : ℕ) (chk : ER) :
    MtxKeeps s (s.sigTev t tskevt chk).1 := by
  refine onTask_ind (.refl s) fun _ _ => ?_
  dsimp only
  split_ifs with hw
  · exact .release (.inr hw.1)
  · exact .upd t (fun c => { c with tskevt := _ }) ⟨rfl, rfl, rfl, rfl, rfl⟩

theorem MtxKeeps.dlyTsk (runs : s.Runs t) (dlytim : ℕ) (chk : ER) :
    MtxKeeps s (s.dlyTsk t dlytim chk).1 := by
  refine checked_ind (.refl s) fun _ => ?_
  split_ifs
  · exact .refl s
  · exact .refl s
  · exact .alone runs _ _ rfl

theorem MtxKeeps.creObj {k : ObjKind} (hk : k ≠ .mtx) (id : ID) (atr : ℕ) (chk : ER) :
    MtxKeeps s (s.creObj k id atr chk).1 := by
  refine checked_ind (.refl s) fun _ => ?_
  split_ifs
  · exact .refl s
  · have hqueue (u : Tsk) (q : QueueId) (hu : u ∈ (s.register k id atr).queue q) :
        u ∈ s.queue q := by
      unfold register at hu
      dsimp only at hu
      split_ifs at hu with hq
      · cases hu
      · exact hu
    have hmtx (m : ID) : (s.register k id atr).queue (.mtx, m) = s.queue (.mtx, m) :=
      if_neg fun e => hk e.1.symm
    refine .one 0 (fun _ _ => rfl) ⟨rfl, rfl⟩ ⟨rfl, rfl, fun m => Function.update_of_ne ?_ _ _⟩
      (fun _ h => h)
      (fun hn m => hmtx m ▸ hn m) (fun u q _ => hqueue u q)
      (fun _ m ht => .inr ⟨hmtx m ▸ ht, fun h => h, fun h => h⟩)
      (fun _ => ⟨rfl, hqueue 0⟩) .inl
    exact fun e => hk (congrArg Prod.fst e).symm

theorem MtxKeeps.delObj {k : ObjKind} (hk : k ≠ .mtx) (id : ID) (chk : ER) :
    MtxKeeps s (s.delObj k id chk).1 := by
  refine onObj_ind (.refl s) fun _ _ => ?_
  have hfold :
      ∀ (ws : List WaitKind) (s : Kern), MtxKeeps s (ws.foldl (fun s w =>
        s.waitDelete (w, id)) s) := by
    intro ws
    induction ws with
    | nil => exact .refl
    | cons w ws ih => exact fun s =>
      (MtxKeeps.wakeup (w, id) (s.queue (w, id)).length s).trans (ih _)
  refine (hfold k.queues s).trans (.same rfl rfl ⟨rfl, rfl, fun m => Function.update_of_ne ?_ _ _⟩)
  exact fun e => hk (congrArg Prod.fst e).symm

theorem MtxKeeps.waiObj (runs : s.Runs t) {k : WaitKind} (hk : k ≠ .mtx) (id : ID) (tmout : ℤ)
    (got : Bool) (chk : ER) : MtxKeeps s (s.waiObj t k id tmout got chk).1 := by
  refine onObj_ind (.refl s) fun atr _ => ?_
  split_ifs
  · exact .refl s
  · exact .refl s
  · exact .makeWaitWithDiswai runs hk ..

theorem MtxKeeps.signal (k : WaitKind) (id : ID) (served : List Tsk) (chk : ER) :
    MtxKeeps s (s.signal k id served chk).1 := onObj_ind (.refl s) fun _ _ => .serve ..

theorem MtxKeeps.sndMbf (caller : Option Tsk) (runs : ∀ t ∈ caller, s.Runs t) (id : ID) (tmout : ℤ)
    (stored : Bool) (chk : ER) : MtxKeeps s (s.sndMbf caller id tmout stored chk).1 := by
  refine onObj_ind (.refl s) fun atr _ => ?_
  split
  · exact .refl s
  · split
    · next u us hq => exact .release (.inl ⟨_, hq ▸ List.mem_cons_self⟩)
    · split_ifs
      · exact .refl s
      · exact .refl s
      · split
        · exact .refl s
        · next t _ => exact .makeWaitWithDiswai (runs t rfl) WaitKind.noConfusion ..

theorem MtxKeeps.rcvMbf (runs : s.Runs t) (h : Hook) (id : ID) (tmout : ℤ) (read : Bool)
    (chk : ER) :
    MtxKeeps s (s.rcvMbf t h id tmout read chk).1 := by
  refine onObj_ind (.refl s) fun atr _ => ?_
  split
  · exact .refl s
  · split
    · exact .wakeup ..
    · split
      · next u us hq =>
          exact (MtxKeeps.release (.inl ⟨_, hq ▸ List.mem_cons_self⟩)).trans (.wakeup ..)
      · split_ifs
        · exact .refl s
        · exact .makeWait runs WaitKind.noConfusion ..

theorem MtxKeeps.calPor (runs : s.Runs t) (id : ID) (tmout : ℤ) (found : Option Tsk)
    (hfound : ∀ u ∈ found, u ∈ s.queue (.acp, id)) (chk : ER) :
    MtxKeeps s (s.calPor t id tmout found chk).1 := by
  refine onObj_ind (.refl s) fun atr _ => ?_
  split
  · exact .makeWaitWithDiswai runs WaitKind.noConfusion ..
  · next u =>
    have hrelease : MtxKeeps s (s.waitRelease u) := .release (.inl ⟨_, hfound u rfl⟩)
    dsimp only
    split_ifs
    · exact .refl s
    · exact hrelease
    · exact (hrelease.trans (.alone (runs.waitRelease u) _ _ rfl)).trans (.toRdv ..)

theorem MtxKeeps.acpPor (inv : LinkInv False (none, s)) (runs : s.Runs t) (h : Hook) (id : ID)
    (tmout : ℤ) (found : Option Tsk) (hfound : ∀ u ∈ found, u ∈ s.queue (.cal, id)) (chk : ER) :
    MtxKeeps s (s.acpPor t h id tmout found chk).1 := by
  refine onObj_ind (.refl s) fun atr _ => ?_
  split
  · exact .refl s
  · split
    · split_ifs
      · exact .refl s
      · exact .makeWait runs WaitKind.noConfusion ..
    · next u =>
      obtain ⟨hactive, hqueue⟩ := inv.waits u (.cal, id) (.inr nofun) (hfound u rfl)
      split_ifs
      · exact .releaseNg h hactive.1
      · refine (MtxKeeps.accept hactive.1 fun m e => ?_).trans (.toRdv ..)
        cases (hqueue.symm.trans e)

/-- The task that accepts is not the one whose rendezvous is forwarded. -/
theorem MtxKeeps.fwdPor (inv : LinkInv False (none, s)) (h : Hook) (id : ID) (u : Tsk)
    (found : Option Tsk) (hfound : ∀ v ∈ found, v ∈ s.queue (.acp, id)) (chk : ER) :
    MtxKeeps s (s.fwdPor h id u found chk).1 := by
  refine onObj_ind (.refl s) fun atr _ => ?_
  split_ifs with hrdv
  · exact .refl s
  · exact .releaseNg h (Bool.eq_true_of_not_eq_false fun hw => hrdv (.inl hw))
  · obtain ⟨hw, hspec⟩ := not_or.mp hrdv
    replace hw := Bool.eq_true_of_not_eq_false hw
    replace hspec := not_not.mp hspec
    split
    · exact .toCal hw hspec ..
    · next v =>
      have hrelease : MtxKeeps s (s.waitRelease v) := .release (.inl ⟨_, hfound v rfl⟩)
      have hne : u ≠ v := fun e => by
        have hqueue := (inv.waits v (.acp, id) (.inr nofun) (hfound v rfl)).2
        rw [← e, waitQueue_eq_none.mpr (by rw [hspec]; rfl)] at hqueue
        cases hqueue
      dsimp only
      split_ifs
      · exact hrelease.trans (.releaseNg h (by rwa [waitRelease_of_ne hne]))
      · exact (hrelease.trans (.upd u _ ⟨rfl, rfl, rfl, rfl, rfl⟩)).trans (.toRdv ..)

theorem MtxKeeps.rplRdv (u : Tsk) (chk : ER) : MtxKeeps s (s.rplRdv u chk).1 := by
  refine checked_ind (.refl s) fun _ => ?_
  split_ifs with hrdv
  · exact .refl s
  · exact .release (.inr (Bool.eq_true_of_not_eq_false fun hw => hrdv (.inl hw)))

/-- The calls that leave the mutexes alone. -/
def KernOp.leavesMutexes : KernOp → Bool
  | creTsk _ _ _ | delTsk _ _ | staTsk _ _ | extTsk _ _ | exdTsk _ _ | terTsk _ _ _ | chgPri _ _ _ _
  | creMtx _ _ _ _ | delMtx _ _ _ | locMtx _ _ _ _ _ | unlMtx _ _ _ _ => false
  | _ => true

theorem MtxKeeps.exec (link : LinkInv False (none, s)) {op : KernOp}
    (runs : ∀ t ∈ op.caller, s.Runs t) (fits : op.Fits s) (hop : op.leavesMutexes) :
    MtxKeeps s (op.exec s).1 := by
  cases op with
  | relWai t h chk => exact .relWai t h chk
  | disWai t h waitmask chk => exact .disWai t h waitmask chk
  | enaWai t chk => exact .enaWai t chk
  | svcMask t waitmask => exact .svcMask t waitmask
  | susTsk t chk => exact .susTsk t chk
  | rsmTsk t chk => exact .rsmTsk t chk
  | frsmTsk t chk => exact .frsmTsk t chk
  | slpTsk t tmout chk => exact .slpTsk (runs t rfl) tmout chk
  | wupTsk t chk => exact .wupTsk t chk
  | canWup t chk => exact .canWup t chk
  | waiTev t waiptn tmout chk => exact .waiTev (runs t rfl) waiptn tmout chk
  | sigTev t tskevt chk => exact .sigTev t tskevt chk
  | dlyTsk t dlytim chk => exact .dlyTsk (runs t rfl) dlytim chk
  | creObj k id atr chk => exact .creObj fits id atr chk
  | delObj k id chk => exact .delObj fits id chk
  | waiSem t id tmout got chk => exact .waiObj (runs t rfl) WaitKind.noConfusion id tmout got chk
  | waiFlg t id tmout got chk => exact .waiObj (runs t rfl) WaitKind.noConfusion id tmout got chk
  | rcvMbx t id tmout got chk => exact .waiObj (runs t rfl) WaitKind.noConfusion id tmout got chk
  | getMpf t id tmout got chk => exact .waiObj (runs t rfl) WaitKind.noConfusion id tmout got chk
  | getMpl t id tmout got chk => exact .waiObj (runs t rfl) WaitKind.noConfusion id tmout got chk
  | sigSem id served chk => exact .signal .sem id served chk
  | setFlg id served chk => exact .signal .flg id served chk
  | sndMbx id served chk => exact .signal .mbx id served chk
  | relMpf id served chk => exact .signal .mpf id served chk
  | relMpl id served chk => exact .signal .mpl id served chk
  | sndMbf caller id tmout stored chk =>
    refine .sndMbf caller (fun t ht => runs t ?_) id tmout stored chk
    cases ht
    rfl
  | rcvMbf t h id tmout read chk => exact .rcvMbf (runs t rfl) h id tmout read chk
  | calPor t id tmout found chk => exact .calPor (runs t rfl) id tmout found fits chk
  | acpPor t h id tmout found chk => exact .acpPor link (runs t rfl) h id tmout found fits chk
  | fwdPor h id u found chk => exact .fwdPor link h id u found fits chk
  | rplRdv u chk => exact .rplRdv u chk
  | timeout t h => exact .releaseNg h (link.timed t fits).1
  | _ => exact absurd hop Bool.false_ne_true

end SmpTKernel
