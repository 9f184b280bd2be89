import SmpTKernel.KernelCeilingInv

/-!
# Base priorities over the runs

`tk_chg_pri` and `tk_loc_mtx` compare the base priority with the ceilings, so it stays below them in
all runs, and the computation at the end of `call_brkhdr` cannot fail, unless a task that its
termination left in the queue of a mutex is started again: it can delete itself while it is in that
queue and get the mutex afterwards.
-/

namespace SmpTKernel

open Kern

variable {s s' : Kern} {t u : Tsk} {m id : ID} {h : Hook} {chk : ER} {p : ℕ}

/-! ## Limits on the base priority -/

/-- No ceiling of a mutex that the task holds or waits for is below the priority. -/
def Kern.UnderCeilings (s : Kern) (t : Tsk) (p : ℕ) : Prop :=
  ∀ m, s.IsCeiling m → m ∈ (s.tcb t).mtxlist ∨ s.WaitsMtx t m → s.ceilpri m ≤ p

theorem chgPriHeld_le (s : Kern) (ms : List ID) (hi low pri : ℕ) :
    (s.chgPriHeld ms hi low pri).2 ≤ p ↔ low ≤ p ∧ ∀ m ∈ ms, s.IsCeiling m → s.ceilpri m ≤ p := by
  induction ms generalizing hi low pri with
  | nil => simp [chgPriHeld]
  | cons m ms ih =>
    unfold chgPriHeld
    dsimp only
    rw [ih, List.forall_mem_cons]
    by_cases hc : s.IsCeiling m
    · have hpri : s.mtxPri m pri = s.ceilpri m := if_pos hc
      rw [hpri]
      have hlow : (if ((s.objatr (.mtx, m)).getD 0) &&& TA_CEILING = TA_CEILING ∧ s.ceilpri m > low
          then s.ceilpri m else low) = max (s.ceilpri m) low := by
        unfold IsCeiling at hc
        rw [max_def']
        simp only [hc, true_and]
        split_ifs <;> omega
      rw [hlow, max_le_iff]
      tauto
    · rw [if_neg fun h => hc h.1]
      tauto

theorem shiftLeft_and_tskwait (n : ℕ) : n <<< 16 &&& TTW_MTX = 0 := by
  refine Nat.eq_of_testBit_eq fun i => ?_
  rw [Nat.testBit_and, Nat.testBit_shiftLeft, Nat.zero_testBit]
  by_cases hi : 16 ≤ i
  · have hmtx : TTW_MTX.testBit i = false :=
      Nat.testBit_lt_two_pow (lt_of_lt_of_le (by decide) (Nat.pow_le_pow_right (by decide) hi))
    rw [hmtx, Bool.and_false]
  · simp [hi]

/-- Only the wait specifications of mutexes have this factor. -/
theorem tskwait_mtx (w : WaitSpec) : w.tskwait &&& TTW_MTX ≠ 0 ↔ w.kind = some .mtx := by
  cases w with
  | tev n => simp [WaitSpec.kind, shiftLeft_and_tskwait]
  | que k tpri => cases k <;> simp [WaitSpec.kind, WaitKind.tskwait] <;> decide
  | _ => decide

theorem waitsMtx_iff : s.WaitsMtx t m ↔
    ((s.tcb t).state.isWait ∧ (s.tcb t).wspec.tskwait &&& TTW_MTX ≠ 0) ∧ (s.tcb t).wid = m := by
  rw [tskwait_mtx]
  unfold WaitsMtx waitQueue
  simp only [Option.map_eq_some_iff, Prod.mk.injEq]
  constructor
  · rintro ⟨hw, k, hk, rfl, rfl⟩
    exact ⟨⟨hw, hk⟩, rfl⟩
  · rintro ⟨⟨hw, hk⟩, rfl⟩
    exact ⟨hw, _, hk, rfl, rfl⟩

/-- The limit that `chg_pri_mutex` begins with, from the mutex the task waits for. -/
def Kern.awaitedPri (s : Kern) (t : Tsk) : ℕ :=
  if (s.tcb t).state.isWait ∧ (s.tcb t).wspec.tskwait &&& TTW_MTX ≠ 0 ∧
      ((s.objatr (.mtx, (s.tcb t).wid)).getD 0) &&& TA_CEILING = TA_CEILING then
    s.ceilpri (s.tcb t).wid
  else 0

theorem awaitedPri_le : s.awaitedPri t ≤ p ↔ ∀ m, s.IsCeiling m → s.WaitsMtx t m →
    s.ceilpri m ≤ p := by
  unfold awaitedPri
  split_ifs with hif
  · refine ⟨fun hle m _ hw => ?_, fun hall =>
      hall _ hif.2.2 (waitsMtx_iff.mpr ⟨⟨hif.1, hif.2.1⟩, rfl⟩)⟩
    rw [← (waitsMtx_iff.mp hw).2]
    exact hle
  · refine iff_of_true (Nat.zero_le p) fun m hc hw => absurd ?_ hif
    obtain ⟨⟨hwait, hmtx⟩, rfl⟩ := waitsMtx_iff.mp hw
    exact ⟨hwait, hmtx, hc⟩

theorem chgPriMutex_isSome (s : Kern) (t : Tsk) (p : ℕ) :
    (s.chgPriMutex t p).isSome ↔ s.UnderCeilings t p := by
  have hsome : (s.chgPriMutex t p).isSome ↔
      (s.chgPriHeld (s.tcb t).mtxlist p (s.awaitedPri t) p).2 ≤ p := by
    change (if p < (s.chgPriHeld (s.tcb t).mtxlist p (s.awaitedPri t) p).2 then none
      else some (s.chgPriHeld (s.tcb t).mtxlist p (s.awaitedPri t) p).1).isSome ↔ _
    split_ifs with hlt
    · exact iff_of_false Bool.false_ne_true (not_le.mpr hlt)
    · exact iff_of_true rfl (not_lt.mp hlt)
  rw [hsome, chgPriHeld_le, awaitedPri_le]
  unfold UnderCeilings
  constructor
  · exact fun ⟨hw, hh⟩ m hc hm => hm.elim (fun hm => hh m hm hc) (hw m hc)
  · exact fun h => ⟨fun m hc hw => h m hc (.inr hw), fun m hm hc => h m hc (.inl hm)⟩

/-! ## The calls that change what is held or limited -/

theorem CeilInv.base (inv : CeilInv none [] s) (hp : s.UnderCeilings t p) :
    CeilInv none [] (s.upd t fun c => { c with bpriority := p }) := by
  have hcore (u : Tsk) : ((s.upd t fun c => { c with bpriority := p }).tcb u).state =
    (s.tcb u).state ∧
      ((s.upd t fun c => { c with bpriority := p }).tcb u).mtxlist = (s.tcb u).mtxlist ∧
      (s.upd t fun c => { c with bpriority := p }).waitQueue u = s.waitQueue u := by
    unfold waitQueue
    rw [upd_tcb]
    split_ifs with hu
    · rw [hu]
      exact ⟨rfl, rfl, rfl⟩
    · exact ⟨rfl, rfl, rfl⟩
  have halive (u : Tsk) : ((s.upd t fun c => { c with bpriority := p }).tcb u).Alive ↔
      (s.tcb u).Alive :=
    alive_congr (hcore u).1
  have hwaits (u : Tsk) (m : ID) : (s.upd t fun c => { c with bpriority := p }).WaitsMtx u m ↔
      s.WaitsMtx u m := by
    unfold WaitsMtx
    rw [(hcore u).1, (hcore u).2.2]
  have hbase {u : Tsk} {m : ID} (hc : s.IsCeiling m) (hm : m ∈ (s.tcb u).mtxlist ∨ s.WaitsMtx u m)
      (hold : s.ceilpri m ≤ (s.tcb u).bpriority) :
      s.ceilpri m ≤ ((s.upd t fun c => { c with bpriority := p }).tcb u).bpriority := by
    rw [upd_tcb]
    split_ifs with hu
    · exact hp m hc (hu ▸ hm)
    · exact hold
  refine ⟨inv.nodup, fun u m hu => ?_, nofun, fun u hd hq => ?_, fun u ha _ => ?_, nofun,
    inv.pending, nofun, fun u m hr hu => ?_, fun u m hw => inv.other u m ((hwaits u m).mp hw),
    fun u m hw hc => ?_⟩
  · rw [hwaits, halive]
    exact inv.linked u m hu
  · rw [halive] at hd
    rw [(hcore u).1] at hq
    rw [(hcore u).2.1]
    exact inv.dead u hd hq
  · have hold := inv.holds u ((halive u).mp ha) nofun
    refine ⟨?_, ?_, ?_⟩ <;> rw [(hcore u).2.1]
    · exact hold.nodup
    · exact hold.held
    · exact fun m hm hc => hbase hc (.inl hm) (hold.ceiling m hm hc)
  · rw [halive, (hcore u).2.1]
    exact inv.owner u m hr hu
  · have hw' := (hwaits u m).mp hw
    exact hbase hc (.inr hw') (inv.waits u m hw' hc)

/-- A task that is neither dormant nor in execution has nothing to hand over. -/
theorem CeilInv.gone (inv : CeilInv none [] s) (hd : ¬(s.tcb t).Alive) : CeilInv (some t) [] s := by
  refine ⟨inv.nodup, inv.linked, fun u m hx hu => ?_, inv.dead, fun u ha _ => inv.holds u ha nofun,
    nofun, inv.pending, nofun, fun u m hr hu => ?_, inv.other, inv.waits⟩
  · cases hx
    exact ((inv.linked t m hu).resolve_left fun hw => hd (alive_of_isWait hw.1)).2
  · obtain ⟨⟨ha, -⟩, hmem⟩ := (inv.owner u m hr hu).resolve_left List.not_mem_nil
    refine .inr ⟨⟨ha, fun e => hd ?_⟩, hmem⟩
    cases e
    exact ha

/-- The task is in no queue of a mutex. -/
theorem CeilInv.start (inv : CeilInv none [] s) (hd : (s.tcb t).state = .dormant)
    (ht : ∀ m, t ∉ s.queue (.mtx, m)) : CeilInv none [] (s.makeReady t) := by
  have hdead : ¬(s.tcb t).Alive := fun ha => ha.2 hd
  have hself : (s.makeReady t).tcb t = { s.tcb t with state := .ready, ready := true } := upd_self
  have hother {u : Tsk} (hu : u ≠ t) : (s.makeReady t).tcb u = s.tcb u := upd_of_ne hu
  have hnil : ((s.makeReady t).tcb t).mtxlist = [] := by
    rw [hself]
    exact inv.dead t hdead (.inl hd)
  have halive : ((s.makeReady t).tcb t).Alive := by
    rw [hself]
    exact ⟨nofun, nofun⟩
  have hidle {u : Tsk} {m : ID} (hw : (s.makeReady t).WaitsMtx u m) : u ≠ t := fun e => by
    have hwait := hw.1
    rw [e, hself] at hwait
    cases hwait
  refine ⟨inv.nodup, fun u m hu => ?_, nofun, fun u hd' hq => ?_, fun u ha _ => ?_, nofun,
    inv.pending, nofun, fun u m hr hu => ?_, fun u m hw => ?_, fun u m hw hc => ?_⟩
  · have hut : u ≠ t := fun e => ht m (e ▸ hu)
    rw [waitsMtx_congr (hother hut), hother hut]
    exact inv.linked u m hu
  · have hut : u ≠ t := fun e => hd' (e ▸ halive)
    rw [hother hut] at hd' hq ⊢
    exact inv.dead u hd' hq
  · by_cases hut : u = t
    · subst hut
      constructor <;> simp [hnil]
    · rw [hother hut] at ha
      obtain ⟨h₁, h₂, h₃⟩ := inv.holds u ha nofun
      refine ⟨?_, ?_, ?_⟩ <;> rw [hother hut]
      · exact h₁
      · exact h₂
      · exact h₃
  · obtain ⟨ha, hmem⟩ := (inv.owner u m hr hu).resolve_left List.not_mem_nil
    have hut : u ≠ t := fun e => hdead (e ▸ ha.1)
    rw [hother hut]
    exact .inr ⟨ha, hmem⟩
  · exact inv.other u m ((waitsMtx_congr (hother (hidle hw))).mp hw)
  · have hut := hidle hw
    rw [hother hut]
    exact inv.waits u m ((waitsMtx_congr (hother hut)).mp hw) hc

theorem CeilInv.creMtx (inv : CeilInv none [] s) (link : LinkInv False (none, s)) (id : ID)
    (atr ceilpri : ℕ) (chk : ER) : CeilInv none [] (s.creMtx id atr ceilpri chk).1 := by
  refine checked_ind inv fun _ => ?_
  split_ifs with hfree
  · exact inv
  replace hfree := not_not.mp hfree
  have hsub (u : Tsk) (q : QueueId) (hu : u ∈ (s.register .mtx id atr).queue q) :
      u ∈ s.queue q := by
    unfold register at hu
    dsimp only at hu
    split_ifs at hu
    · cases hu
    · exact hu
  have hself (u : Tsk) : u ∉ (s.register .mtx id atr).queue (.mtx, id) := by
    have hnil : (s.register .mtx id atr).queue (.mtx, id) = [] := if_pos ⟨rfl, rfl⟩
    rw [hnil]
    exact List.not_mem_nil
  have hobj {m : ID} (hm : m ≠ id) : Function.update s.objatr (.mtx, id) (some atr) (.mtx, m) =
      s.objatr (.mtx, m) :=
    Function.update_of_ne (fun e => hm (congrArg Prod.snd e)) _ _
  have hceil {m : ID} (hm : m ≠ id) : (s.register .mtx id atr).IsCeiling m ↔ s.IsCeiling m := by
    unfold IsCeiling register
    dsimp only
    rw [hobj hm]
  have hmtxtsk {m : ID} (hm : m ≠ id) : Function.update s.mtxtsk id none m = s.mtxtsk m :=
    Function.update_of_ne hm _ _
  have hpri {m : ID} (hm : m ≠ id) : Function.update s.ceilpri id ceilpri m = s.ceilpri m :=
    Function.update_of_ne hm _ _
  refine ⟨fun m => ?_, fun u m hu => ?_, nofun, fun u hd hq => ?_, fun u ha _ => ?_, nofun,
    ⟨List.nodup_nil, nofun⟩, nofun, fun u m hr hu => ?_, fun u m hw => ?_, fun u m hw hc => ?_⟩
  · change ((s.register .mtx id atr).queue (.mtx, m)).Nodup
    unfold register
    dsimp only
    split_ifs
    · exact List.nodup_nil
    · exact inv.nodup m
  · have hm : m ≠ id := fun e => hself u (e ▸ hu)
    exact (inv.linked u m (hsub u _ hu)).imp_right fun h => ⟨h.1, fun hc => h.2 ((hceil hm).mp hc)⟩
  · refine inv.dead u hd (hq.imp_right ?_)
    rintro ⟨q, hq⟩
    exact ⟨q, hsub u q hq⟩
  · have hold := inv.holds u ha nofun
    have hne {m : ID} (hm : m ∈ (s.tcb u).mtxlist) : m ≠ id :=
      fun e => (hold.held m hm).2 (e ▸ hfree)
    refine ⟨hold.nodup, fun m hm => ?_, fun m hm hc => ?_⟩
    · exact ⟨(hmtxtsk (hne hm)).trans (hold.held m hm).1,
        fun e => (hold.held m hm).2 ((hobj (hne hm)).symm.trans e)⟩
    · exact (hpri (hne hm)).trans_le (hold.ceiling m hm ((hceil (hne hm)).mp hc))
  · have hm : m ≠ id := fun e => by
      change Function.update s.mtxtsk id none m = some u at hu
      rw [e, Function.update_self] at hu
      cases hu
    exact inv.owner u m (fun e => hr ((hobj hm).trans e)) ((hmtxtsk hm).symm.trans hu)
  · change Function.update s.mtxtsk id none m ≠ some u
    rw [Function.update_apply]
    split_ifs
    · nofun
    · exact inv.other u m hw
  · have hw' : s.WaitsMtx u m := hw
    have hm : m ≠ id := fun e => by
      obtain ⟨atr', hatr, -⟩ := link.registered u (.mtx, m) ⟨hw'.1, nofun⟩ hw'.2
      rw [e] at hatr
      cases hfree.symm.trans hatr
    exact (hpri hm).trans_le (inv.waits u m hw' ((hceil hm).mp hc))

theorem CeilInv.unregister (inv : CeilInv none [id] s) :
    CeilInv none [] (s.unregister .mtx id) := by
  have hobj {m : ID} (hm : m ≠ id) : (s.unregister .mtx id).objatr (.mtx, m) = s.objatr (.mtx, m) :=
    Function.update_of_ne (fun e => hm (congrArg Prod.snd e)) _ _
  have hceil {m : ID} (hc : (s.unregister .mtx id).IsCeiling m) : m ≠ id ∧ s.IsCeiling m := by
    by_cases hm : m = id
    · simp [IsCeiling, Kern.unregister, hm, TA_CEILING] at hc
    · unfold IsCeiling at hc
      rw [hobj hm] at hc
      exact ⟨hm, hc⟩
  refine ⟨inv.nodup, fun u m hu => ?_, nofun, inv.dead, fun u ha _ => ?_, nofun,
    ⟨List.nodup_nil, nofun⟩, nofun, fun u m hr hu => ?_, inv.other, fun u m hw hc =>
      inv.waits u m hw (hceil hc).2⟩
  · exact (inv.linked u m hu).imp_right fun h => ⟨h.1, fun hc => h.2 (hceil hc).2⟩
  · have hold := inv.holds u ha nofun
    refine ⟨hold.nodup, fun m hm => ⟨(hold.held m hm).1, ?_⟩, fun m hm hc =>
      hold.ceiling m hm (hceil hc).2⟩
    have hne : m ≠ id := fun e => inv.free id (List.mem_singleton.mpr rfl) u ha nofun (e ▸ hm)
    rw [hobj hne]
    exact (hold.held m hm).2
  · have hne : m ≠ id := fun e => by
      rw [e] at hr
      exact hr (Function.update_self ..)
    rw [hobj hne] at hr
    exact .inr ((inv.owner u m hr hu).resolve_left fun h => hne (List.mem_singleton.mp h))

theorem CeilInv.deleted (inv : CeilInv none [id] s) : CeilInv none [] (s.deleted .mtx id) :=
  (inv.keeps_none (.wakeup (.mtx, id) (s.queue (.mtx, id)).length s)).unregister

theorem CeilInv.delMtx (inv : CeilInv none [] s) (h : Hook) (id : ID) (chk : ER) :
    CeilInv none [] (s.delMtx h id chk).1 := by
  refine onObj_ind inv fun atr hatr => ?_
  have hreg : s.objatr (.mtx, id) ≠ none := fun e => by
    rw [e] at hatr
    cases hatr
  split
  · next hid => exact (inv.unowned hreg hid).deleted
  · next t hid => exact ((inv.released hreg hid).keeps_none (.chain ..)).deleted

theorem CeilInv.unlMtx (inv : CeilInv none [] s) (h : Hook) (t : Tsk) (id : ID) (chk : ER) :
    CeilInv none [] (s.unlMtx t h id chk).1 := by
  refine onObj_ind inv fun atr hatr => ?_
  split_ifs with hid
  · exact inv
  · refine (((inv.released ?_ (not_not.mp hid)).keeps_none (.chain ..)).pass h)
    rw [hatr]
    nofun

/-- The task waits for the mutex. -/
theorem CeilInv.enter (inv : CeilInv none [] s) (runs : s.Runs t) (id : ID) (atr : ℕ) (tmout : ℤ)
    (hown : s.mtxtsk id ≠ some t) (hbase : s.IsCeiling id → s.ceilpri id ≤ (s.tcb t).bpriority) :
    CeilInv none [] (s.gcbMakeWait t .mtx id atr tmout) := by
  have hself := gcbMakeWait_self s t .mtx id atr tmout
  have hother {u : Tsk} (hu : u ≠ t) : (s.gcbMakeWait t .mtx id atr tmout).tcb u = s.tcb u :=
    gcbMakeWait_of_ne hu ..
  have hwait : (s.gcbMakeWait t .mtx id atr tmout).WaitsMtx t id := by
    unfold WaitsMtx waitQueue
    rw [hself]
    refine ⟨entered_isWait runs, ?_⟩
    change (WaitKind.mtx.wspec atr).kind.map (·, id) = _
    rw [wspec_kind]
    rfl
  have halive : ((s.gcbMakeWait t .mtx id atr tmout).tcb t).Alive := alive_of_isWait hwait.1
  have hqueue (q : QueueId) : (s.gcbMakeWait t .mtx id atr tmout).queue q = s.queue q ∨
      q = (.mtx, id) ∧ ((s.gcbMakeWait t .mtx id atr tmout).queue q).Perm (t :: s.queue q) := by
    by_cases hq : q = (.mtx, id)
    · refine .inr ⟨hq, ?_⟩
      subst hq
      unfold gcbMakeWait enqueue
      rw [setQueue_self]
      exact enqueue_perm _ _ _
    · exact .inl (setQueue_of_ne hq _)
  have hmem {u : Tsk} {q : QueueId} (hu : u ∈ (s.gcbMakeWait t .mtx id atr tmout).queue q) :
      u ∈ s.queue q ∨ u = t ∧ q = (.mtx, id) := by
    rcases hqueue q with he | ⟨hq, hperm⟩
    · exact .inl (he ▸ hu)
    · exact (List.mem_cons.mp (hperm.subset hu)).symm.imp_right fun e => ⟨e, hq⟩
  refine ⟨fun m => ?_, fun u m hu => ?_, nofun, fun u hd hq => ?_, fun u ha _ => ?_, nofun,
    inv.pending, nofun, fun u m hr hu => ?_, fun u m hw => ?_, fun u m hw hc => ?_⟩
  · rcases hqueue (.mtx, m) with he | ⟨-, hperm⟩
    · rw [he]
      exact inv.nodup m
    · exact hperm.nodup_iff.mpr (List.nodup_cons.mpr ⟨inv.not_mem_runs runs, inv.nodup m⟩)
  · rcases hmem hu with hu | ⟨rfl, hq⟩
    · have hut : u ≠ t := fun e => inv.not_mem_runs runs (e ▸ hu)
      rw [waitsMtx_congr (hother hut), hother hut]
      exact inv.linked u m hu
    · cases hq
      exact .inl hwait
  · have hut : u ≠ t := fun e => hd (e ▸ halive)
    rw [hother hut] at hd hq ⊢
    refine inv.dead u hd (hq.imp_right ?_)
    rintro ⟨q, hq⟩
    exact ⟨q, (hmem hq).resolve_right fun e => hut e.1⟩
  · have hfields : ((s.gcbMakeWait t .mtx id atr tmout).tcb u).mtxlist = (s.tcb u).mtxlist ∧
        ((s.gcbMakeWait t .mtx id atr tmout).tcb u).bpriority = (s.tcb u).bpriority ∧
        (s.tcb u).Alive := by
      by_cases hut : u = t
      · subst hut
        rw [hself]
        exact ⟨rfl, rfl, runs.alive⟩
      · rw [hother hut] at ha ⊢
        exact ⟨rfl, rfl, ha⟩
    obtain ⟨h₁, h₂, h₃⟩ := inv.holds u hfields.2.2 nofun
    refine ⟨?_, ?_, ?_⟩ <;> rw [hfields.1]
    · exact h₁
    · exact h₂
    · rw [hfields.2.1]
      exact h₃
  · obtain ⟨ha, hlist⟩ := (inv.owner u m hr hu).resolve_left List.not_mem_nil
    by_cases hut : u = t
    · subst hut
      refine .inr ⟨⟨halive, nofun⟩, ?_⟩
      rw [hself]
      exact hlist
    · rw [hother hut]
      exact .inr ⟨ha, hlist⟩
  · by_cases hut : u = t
    · subst hut
      obtain rfl : m = id := hw.wid.symm.trans hwait.wid
      exact hown
    · exact inv.other u m ((waitsMtx_congr (hother hut)).mp hw)
  · by_cases hut : u = t
    · subst hut
      obtain rfl : m = id := hw.wid.symm.trans hwait.wid
      rw [hself]
      exact hbase hc
    · rw [hother hut]
      exact inv.waits u m ((waitsMtx_congr (hother hut)).mp hw) hc

theorem CeilInv.locMtx (inv : CeilInv none [] s) (link : LinkInv False (none, s)) (h : Hook)
    (runs : s.Runs t) (id : ID) (tmout : ℤ) (chk : ER) :
    CeilInv none [] (s.locMtx t h id tmout chk).1 := by
  refine onObj_ind inv fun atr hatr => ?_
  have hceil : s.IsCeiling id ↔ atr &&& TA_CEILING = TA_CEILING := by
    unfold IsCeiling
    rw [hatr, Option.getD_some]
  split
  · exact inv
  next hown =>
  split
  · exact inv
  next hbase =>
  split
  · exact inv
  · have hlimit (hc : s.IsCeiling id) : s.ceilpri id ≤ (s.tcb t).bpriority :=
      not_lt.mp fun hlt => hbase ⟨hceil.mp hc, hlt⟩
    split
    · next hid =>
      have hreg : s.objatr (.mtx, id) ≠ none := fun e => by
        rw [e] at hatr
        cases hatr
      have hheld : CeilInv none [] (s.holdMutex t id) :=
        (inv.unowned hreg hid).hold runs.alive nofun runs.not_waitsMtx hlimit
      dsimp only
      unfold takeMutex
      dsimp only
      split_ifs
      · exact hheld.keeps_none (.changeTaskPriority ..)
      · exact hheld
    · next mtxtsk _ =>
      split_ifs
      · exact inv
      · have hkeeps : MtxKeeps s (s.raiseHolder t h mtxtsk atr) := .raiseHolder ..
        have hcalm : Calm t s (s.raiseHolder t h mtxtsk atr) := by
          unfold raiseHolder
          split_ifs
          · exact .chain h.served h.depth (s, some (mtxtsk, (s.tcb t).priority))
          · exact .refl t s
        refine (inv.keeps_none hkeeps).enter (link.calm runs hcalm).1 id atr tmout
          (by rwa [hkeeps.mtxtsk]) fun hc => ?_
        rw [hkeeps.ceilpri, hkeeps.bpriority]
        exact hlimit (hkeeps.isCeiling.mp hc)

theorem CeilInv.chgPri (inv : CeilInv none [] s) (t : Tsk) (h : Hook) (tskpri : Option ℕ)
    (chk : ER) :
    CeilInv none [] (s.chgPri t h tskpri chk).1 := by
  refine onTask_ind inv fun _ _ => ?_
  dsimp only
  split
  · exact inv
  · next hsome =>
    exact (inv.base ((chgPriMutex_isSome s t _).mp (by rw [hsome]; rfl))).keeps_none
      (.changeTaskPriority ..)

theorem CeilInv.creTsk (inv : CeilInv none [] s) (t : Tsk) (ipriority : ℕ) (chk : ER) :
    CeilInv none [] (s.creTsk t ipriority chk).1 := by
  refine checked_ind inv fun _ => ?_
  split_ifs with hn
  · exact inv
  · dsimp only
    rw [Kern.makeDormant, upd_upd]
    exact (inv.gone fun ha => ha.1 (not_not.mp hn)).ended (fun h => h.2 rfl) fun _ => rfl

theorem CeilInv.delTsk (inv : CeilInv none [] s) (t : Tsk) (chk : ER) :
    CeilInv none [] (s.delTsk t chk).1 := by
  refine onTask_ind inv fun _ _ => ?_
  split_ifs with hd
  · exact inv
  · have hdead : ¬(s.tcb t).Alive := fun ha => ha.2 (not_not.mp hd)
    exact (inv.gone hdead).ended (f := fun c => { c with state := .nonexist }) (fun h => h.1 rfl)
      fun _ => inv.dead t hdead (.inl (not_not.mp hd))

theorem CeilInv.staTsk (inv : CeilInv none [] s) (t : Tsk) (chk : ER)
    (ht : ∀ m, t ∉ s.queue (.mtx, m)) :
    CeilInv none [] (s.staTsk t chk).1 := by
  refine onTask_ind inv fun _ _ => ?_
  split_ifs with hd
  · exact inv
  · exact (inv.start (not_not.mp hd) ht).keeps_none (.note _)

theorem CeilInv.terTsk (inv : CeilInv none [] s) (link : LinkInv False (none, s)) (t : Tsk)
    (h : Hook) (chk : ER) :
    CeilInv none [] (s.terTsk t h chk).1 :=
  onTask_ind inv fun hn hd =>
    (inv.terTask link h ⟨hn, fun hs => absurd (hd hs) (by decide)⟩).makeDormant

theorem CeilInv.exdTsk (inv : CeilInv none [] s) (link : LinkInv False (none, s)) (h : Hook)
    (runs : s.Runs t) :
    CeilInv none [] (s.exdTsk t h).1 := by
  refine (inv.terTask link h runs.alive).ended (f := fun c => { c with state := .nonexist })
    (fun ha => ha.1 rfl)
    fun hq => ?_
  rcases hq with hd | ⟨q, hq⟩
  · cases hd
  · exact absurd hq (terTask_not_mem inv link h runs q)

theorem CeilInv.exec (inv : CeilInv none [] s) (link : LinkInv False (none, s)) {op : KernOp}
    (runs : ∀ t ∈ op.caller, s.Runs t) (fits : op.Fits s)
    (hsta : ∀ t chk, op = .staTsk t chk → ∀ m, t ∉ s.queue (.mtx, m)) :
    CeilInv none [] (op.exec s).1 := by
  by_cases hop : op.leavesMutexes
  · exact inv.keeps_none (.exec link runs fits hop)
  cases op with
  | creTsk t ipriority chk => exact inv.creTsk t ipriority chk
  | delTsk t chk => exact inv.delTsk t chk
  | staTsk t chk => exact inv.staTsk t chk (hsta t chk rfl)
  | extTsk t h => exact (inv.terTask link h (runs t rfl).alive).makeDormant
  | exdTsk t h => exact inv.exdTsk link h (runs t rfl)
  | terTsk t h chk => exact inv.terTsk link t h chk
  | chgPri t h tskpri chk => exact inv.chgPri t h tskpri chk
  | creMtx id atr ceilpri chk => exact inv.creMtx link id atr ceilpri chk
  | delMtx h id chk => exact inv.delMtx h id chk
  | locMtx t h id tmout chk => exact inv.locMtx link h (runs t rfl) id tmout chk
  | unlMtx t h id chk => exact inv.unlMtx h t id chk
  | _ => exact absurd rfl hop

/-! ## Runs -/

/-- `call_brkhdr` up to the call of the break function for the task `u`, which is in an extended
system call. -/
def Kern.brkEnter (s : Kern) (t u : Tsk) (h : Hook) : Kern :=
  if s.pri u < s.pri t then s.changeTaskPriority t h (s.pri u) else s

/-- The end of `call_brkhdr`; an error of `chg_pri_mutex` would be written to `priority` as any
other value. -/
def Kern.brkLeave (s : Kern) (t : Tsk) (h : Hook) : Kern :=
  let priority := (s.chgPriMutex t (s.tcb t).bpriority).getD (E_ILUSE % 256).toNat
  if s.pri t ≠ priority then s.changeTaskPriority t h priority else s

inductive CeilOp
  | call (op : KernOp)
  | brkEnter (t u : Tsk) (h : Hook)
  | brkLeave (t : Tsk) (h : Hook)

namespace CeilOp

def exec (s : Kern) : CeilOp → Kern
  | call op => (op.exec s).1
  | brkEnter t u h => s.brkEnter t u h
  | brkLeave t h => s.brkLeave t h

def caller : CeilOp → Option Tsk
  | call op => op.caller
  | brkEnter t _ _ | brkLeave t _ => some t

def Fits (s : Kern) : CeilOp → Prop
  | call op => op.Fits s
  | _ => True

/-- The control block of a task in the queue of a mutex is not linked into the ready queue or the
free blocks. -/
def Clear (s : Kern) : CeilOp → Prop
  | call (.staTsk t _) | call (.delTsk t _) => ∀ m, t ∉ s.queue (.mtx, m)
  | _ => True

end CeilOp

/-- The states reached. With `clear` no task that is left in the queue of a mutex is started or
deleted. Without it the lists leave out what happens to such a control block, which has one pair of
links for two queues: a started task stays in the queue of the mutex, where a walk along the links
of the code would go on in the ready queue. -/
inductive CeilRun (clear : Prop) : Kern → Prop
  | init (s : Kern) (initial : s.Initial) : CeilRun clear s
  | step {s : Kern} (run : CeilRun clear s) (op : CeilOp) (runs : ∀ t ∈ op.caller, s.Runs t)
      (fits : op.Fits s) (keeps : clear → op.Clear s) : CeilRun clear (op.exec s)

theorem Kern.Initial.ceil (hs : s.Initial) : CeilInv none [] s := by
  have hdead (t : Tsk) : ¬(s.tcb t).Alive := fun ha => ha.1 (hs.state t)
  have hnot (m : ID) : ¬s.IsCeiling m := by
    unfold IsCeiling
    rw [hs.objatr]
    decide
  refine ⟨fun m => ?_, fun t m ht => ?_, nofun, fun t _ hq => ?_, fun t ha =>
    absurd ha (hdead t), nofun, ⟨List.nodup_nil, nofun⟩, nofun, fun t m hr =>
      absurd (hs.objatr _) hr, fun t m hw => ?_,
    fun t m _ hc => absurd hc (hnot m)⟩
  · rw [hs.queue]
    exact List.nodup_nil
  · rw [hs.queue] at ht
    cases ht
  · rw [hs.state] at hq
    rcases hq with hq | ⟨q, hq⟩
    · cases hq
    · rw [hs.queue] at hq
      cases hq
  · exact absurd (alive_of_isWait hw.1) (hdead t)

theorem brkEnter_steps {good : Prop} (t u : Tsk) (h : Hook) :
    KernSteps good (none, s) (none, s.brkEnter t u h) := by
  unfold Kern.brkEnter
  split_ifs
  · exact changeTaskPriority_steps ..
  · exact .refl

theorem brkLeave_steps {good : Prop} (t : Tsk) (h : Hook) :
    KernSteps good (none, s) (none, s.brkLeave t h) := by
  unfold Kern.brkLeave
  dsimp only
  split_ifs
  · exact changeTaskPriority_steps ..
  · exact .refl

theorem CeilRun.link {clear : Prop} (run : CeilRun clear s) : LinkInv False (none, s) := by
  induction run with
  | init s initial => exact initial.link
  | step run op runs fits _ link =>
    cases op with
    | call op => exact link.steps (link.exec_steps runs fits nofun)
    | brkEnter t u h => exact link.steps (brkEnter_steps t u h)
    | brkLeave t h => exact link.steps (brkLeave_steps t h)

theorem CeilRun.inv (run : CeilRun True s) : CeilInv none [] s := by
  induction run with
  | init s initial => exact initial.ceil
  | @step s run op runs fits keeps inv =>
    cases op with
    | call op =>
      refine inv.exec run.link runs fits fun t chk hop => ?_
      subst hop
      exact keeps trivial
    | brkEnter t u h =>
      change CeilInv none [] (s.brkEnter t u h)
      unfold Kern.brkEnter
      split_ifs
      · exact inv.keeps_none (.changeTaskPriority ..)
      · exact inv
    | brkLeave t h =>
      change CeilInv none [] (s.brkLeave t h)
      unfold Kern.brkLeave
      dsimp only
      split_ifs
      · exact inv.keeps_none (.changeTaskPriority ..)
      · exact inv

theorem IsCeiling.registered (hc : s.IsCeiling m) : s.objatr (.mtx, m) ≠ none := fun e => by
  unfold IsCeiling at hc
  rw [e] at hc
  cases hc

theorem CeilInv.holder_iff (inv : CeilInv none [] s) (ht : (s.tcb t).state ≠ .nonexist)
    (hr : s.objatr (.mtx, m) ≠ none) : m ∈ (s.tcb t).mtxlist ↔ s.mtxtsk m = some t := by
  refine ⟨fun hm => ?_, fun hm => ((inv.owner t m hr hm).resolve_left List.not_mem_nil).2⟩
  by_cases hd : (s.tcb t).state = .dormant
  · rw [inv.dead t (fun ha => ha.2 hd) (.inl hd)] at hm
    cases hm
  · exact ((inv.holds t ⟨ht, hd⟩ nofun).held m hm).1

theorem CeilInv.underCeilings_iff (inv : CeilInv none [] s) (ht : (s.tcb t).state ≠ .nonexist)
    (p : ℕ) :
    s.UnderCeilings t p ↔ ∀ m, s.IsCeiling m → s.mtxtsk m = some t ∨ s.WaitsMtx t m →
      s.ceilpri m ≤ p :=
  forall₂_congr fun m hc => by rw [inv.holder_iff ht (IsCeiling.registered hc)]

/-- The limits that the ceilings of the mutexes a task holds or waits for set to its base priority:
`tk_chg_pri` accepts exactly the priorities within them and does nothing otherwise, the base
priority is always within them, and so `call_brkhdr` always gets a priority from `chg_pri_mutex`. -/
structure CeilingsRight (s : Kern) : Prop where
  accepts : ∀ t h tskpri, (s.tcb t).state ≠ .nonexist → ((s.chgPri t h tskpri E_OK).2 = some E_OK ↔
    ∀ m, s.IsCeiling m → s.mtxtsk m = some t ∨ s.WaitsMtx t m →
      s.ceilpri m ≤ tskpri.getD (s.tcb t).ipriority)
  refuses : ∀ t h tskpri chk, (s.chgPri t h tskpri chk).2 ≠ some E_OK →
    (s.chgPri t h tskpri chk).1 = s
  base : ∀ t m, s.IsCeiling m → s.mtxtsk m = some t ∨ s.WaitsMtx t m →
    s.ceilpri m ≤ (s.tcb t).bpriority
  computed : ∀ t, (s.tcb t).state ≠ .nonexist → s.chgPriMutex t (s.tcb t).bpriority ≠ none

theorem chgPri_accepts (inv : CeilInv none [] s) (t : Tsk) (h : Hook) (tskpri : Option ℕ)
    (ht : (s.tcb t).state ≠ .nonexist) : (s.chgPri t h tskpri E_OK).2 = some E_OK ↔
      ∀ m, s.IsCeiling m → s.mtxtsk m = some t ∨ s.WaitsMtx t m →
        s.ceilpri m ≤ tskpri.getD (s.tcb t).ipriority := by
  rw [← inv.underCeilings_iff ht, ← chgPriMutex_isSome]
  unfold Kern.chgPri onTask checked
  rw [if_neg (not_not.mpr rfl), if_neg ht, if_neg fun e => e.2 rfl]
  dsimp only
  split
  · next hnone =>
    rw [hnone]
    exact iff_of_false (show some E_ILUSE ≠ some E_OK by decide) Bool.false_ne_true
  · next hsome =>
    rw [hsome]
    exact iff_of_true rfl rfl

theorem chgPri_refuses (t : Tsk) (h : Hook) (tskpri : Option ℕ) (chk : ER)
    (hr : (s.chgPri t h tskpri chk).2 ≠ some E_OK) : (s.chgPri t h tskpri chk).1 = s := by
  unfold Kern.chgPri onTask checked at hr ⊢
  split_ifs at hr ⊢
  · rfl
  · rfl
  · rfl
  · dsimp only at hr ⊢
    split at hr
    · rfl
    · exact absurd rfl hr

theorem CeilInv.base_le (inv : CeilInv none [] s) (t : Tsk) (m : ID) (hc : s.IsCeiling m)
    (hm : s.mtxtsk m = some t ∨ s.WaitsMtx t m) : s.ceilpri m ≤ (s.tcb t).bpriority := by
  rcases hm with hm | hm
  · obtain ⟨⟨ha, hx⟩, hmem⟩ :=
      (inv.owner t m (IsCeiling.registered hc) hm).resolve_left List.not_mem_nil
    exact (inv.holds t ha hx).ceiling m hmem hc
  · exact inv.waits t m hm hc

/-- The ceilings are kept in every run in which no task that its termination left in the queue of a
mutex is started or deleted. -/
theorem ceilRun_chgPri (run : CeilRun True s) : CeilingsRight s where
  accepts := chgPri_accepts run.inv
  refuses := chgPri_refuses
  base := run.inv.base_le
  computed t ht := by
    rw [← Option.isSome_iff_ne_none, chgPriMutex_isSome, run.inv.underCeilings_iff ht]
    exact run.inv.base_le t

/-- Task 1 holds the mutex and task 2 waits for it. -/
def ceilingRun : List KernOp :=
  [.creTsk 1 10 0, .creTsk 2 12 0, .staTsk 1 0, .staTsk 2 0, .creMtx 1 TA_CEILING 5 0,
    .locMtx 1 ⟨0, 9⟩ 1 TMO_FEVR 0, .locMtx 2 ⟨0, 9⟩ 1 TMO_FEVR 0]

theorem ceilRun_ceilingRun : CeilRun True (execAll ceilingRun boot) := by
  have h₀ : CeilRun True boot := .init boot boot_initial
  have h₁ := h₀.step (.call (.creTsk 1 10 0)) nofun trivial fun _ => trivial
  have h₂ := h₁.step (.call (.creTsk 2 12 0)) nofun trivial fun _ => trivial
  have h₃ := h₂.step (.call (.staTsk 1 0)) nofun trivial fun _ _ => List.not_mem_nil
  have h₄ := h₃.step (.call (.staTsk 2 0)) nofun trivial fun _ _ => List.not_mem_nil
  have h₅ := h₄.step (.call (.creMtx 1 TA_CEILING 5 0)) nofun trivial fun _ => trivial
  have h₆ := h₅.step (.call (.locMtx 1 ⟨0, 9⟩ 1 TMO_FEVR 0)) (by decide +kernel) trivial fun _ =>
    trivial
  exact h₆.step (.call (.locMtx 2 ⟨0, 9⟩ 1 TMO_FEVR 0)) (by decide +kernel) trivial fun _ => trivial

/-- Its priority cannot be raised above the ceiling. -/
theorem ceilRun_chgPri_waiting : ((execAll ceilingRun boot).tcb 2).state = .wait ∧
    ((execAll ceilingRun boot).chgPri 2 ⟨0, 9⟩ (some 4) E_OK).2 ≠ some E_OK := by
  refine ⟨by decide +kernel, fun h => ?_⟩
  have hlimit :=
    ((ceilRun_chgPri ceilRun_ceilingRun).accepts 2 ⟨0, 9⟩ (some 4) (by decide +kernel)).mp h 1
    (by unfold IsCeiling; decide +kernel) (.inr ⟨by decide +kernel, by decide +kernel⟩)
  exact absurd hlimit (by decide +kernel)

theorem KernRun.ceilRun {ok : Kern → KernOp → Prop} (run : KernRun ok s) : CeilRun False s := by
  induction run with
  | init s initial => exact .init s initial
  | step _ op runs fits _ ih => exact ih.step (.call op) runs fits False.elim

/-- The task that its termination left in the queue of mutex 2 is started, locks a mutex with a
ceiling and deletes itself, before it gets mutex 2. -/
def strayRun : List KernOp :=
  ghostRun ++ [.staTsk 1 0, .creMtx 3 TA_CEILING 5 0, .locMtx 1 ⟨0, 9⟩ 3 TMO_FEVR 0,
    .exdTsk 1 ⟨0, 9⟩, .unlMtx 2 ⟨0, 9⟩ 2 0]

theorem strayRun_ceilpri : (execAll strayRun boot).ceilpri =
    Function.update (Function.update (Function.update boot.ceilpri 1 0) 2 0) 3 5 := by
  with_unfolding_all rfl

theorem strayRun_ceilpri_le {m : ID} (hm : m ≠ 3) : (execAll strayRun boot).ceilpri m ≤ 3 := by
  rw [strayRun_ceilpri, Function.update_of_ne hm, Function.update_apply, Function.update_apply]
  split_ifs <;> exact Nat.zero_le 3

/-- Nobody holds mutex 3 any more, but its ceiling still limits the priority of the task. -/
theorem ceilRun_ceilings_wrong : ¬∀ s, CeilRun False s → CeilingsRight s := by
  intro h
  have run : KernRun (fun _ _ => True) (execAll strayRun boot) :=
    (KernRun.init boot boot_initial).all (by decide +kernel)
  have hstate : ((execAll strayRun boot).tcb 1).state = .suspend ∧
    (execAll strayRun boot).mtxtsk 3 = none ∧
      ((execAll strayRun boot).chgPri 1 ⟨0, 9⟩ (some 3) E_OK).2 = some E_ILUSE := by decide +kernel
  obtain ⟨hsuspend, hfree, hrefused⟩ := hstate
  have haccept : ((execAll strayRun boot).chgPri 1 ⟨0, 9⟩ (some 3) E_OK).2 = some E_OK := by
    refine ((h _ run.ceilRun).accepts 1 ⟨0, 9⟩ (some 3) (by rw [hsuspend]; decide)).mpr
      fun m _ hm => ?_
    refine strayRun_ceilpri_le fun hm3 => ?_
    subst hm3
    rcases hm with hm | hm
    · rw [hfree] at hm
      cases hm
    · have hwait := hm.1
      rw [hsuspend] at hwait
      cases hwait
  rw [hrefused] at haccept
  exact absurd haccept (by decide)

end SmpTKernel
