import SmpTKernel.KernelCeilingCalls

/-!
# The base priorities and the ceilings

The invariant: no task that holds a mutex with a ceiling, or waits for one, has a base priority
above the ceiling. While mutexes go from one task to another nobody holds them, and a task that is
being terminated keeps its list until the last of them is handed over.
-/

namespace SmpTKernel

open Kern

variable {s s' : Kern} {t u : Tsk} {m id : ID} {x : Option Tsk} {l : List ID} {h : Hook}

/-- Each mutex of the list is there and held by the task, and its ceiling is not below the base
priority. -/
structure Kern.Holds (s : Kern) (t : Tsk) : Prop where
  nodup : (s.tcb t).mtxlist.Nodup
  held : ∀ m ∈ (s.tcb t).mtxlist, s.mtxtsk m = some t ∧ s.objatr (.mtx, m) ≠ none
  ceiling : ∀ m ∈ (s.tcb t).mtxlist, s.IsCeiling m → s.ceilpri m ≤ (s.tcb t).bpriority

/-- `x` is the task that is being terminated, `l` are the mutexes that go to another task. -/
structure CeilInv (x : Option Tsk) (l : List ID) (s : Kern) : Prop where
  nodup : s.MtxNodup
  /-- A task that its termination left in a queue is in the one of a mutex with inheritance. -/
  linked : ∀ t m, t ∈ s.queue (.mtx, m) → s.WaitsMtx t m ∨ ¬(s.tcb t).Alive ∧ ¬s.IsCeiling m
  away : ∀ t m, x = some t → t ∈ s.queue (.mtx, m) → ¬s.IsCeiling m
  dead : ∀ t, ¬(s.tcb t).Alive → ((s.tcb t).state = .dormant ∨ ∃ q, t ∈ s.queue q) →
    (s.tcb t).mtxlist = []
  holds : ∀ t, (s.tcb t).Alive → x ≠ some t → s.Holds t
  free : ∀ m ∈ l, ∀ t, (s.tcb t).Alive → x ≠ some t → m ∉ (s.tcb t).mtxlist
  pending : l.Nodup ∧ ∀ m ∈ l, s.objatr (.mtx, m) ≠ none
  giver : ∀ t, x = some t → ∀ m ∈ l, (s.tcb t).Alive ∧ s.mtxtsk m = some t
  owner : ∀ t m, s.objatr (.mtx, m) ≠ none → s.mtxtsk m = some t →
    m ∈ l ∨ ((s.tcb t).Alive ∧ x ≠ some t) ∧ m ∈ (s.tcb t).mtxlist
  /-- Nobody waits for a mutex of his own. -/
  other : ∀ t m, s.WaitsMtx t m → s.mtxtsk m ≠ some t
  waits : ∀ t m, s.WaitsMtx t m → s.IsCeiling m → s.ceilpri m ≤ (s.tcb t).bpriority

theorem MtxKeeps.isCeiling (k : MtxKeeps s s') : s'.IsCeiling m ↔ s.IsCeiling m := by
  unfold IsCeiling
  rw [k.objatr]

theorem MtxKeeps.stays_alive (k : MtxKeeps s s') (ha : (s.tcb t).Alive) : (s'.tcb t).Alive := by
  by_contra hd
  exact hd ((alive_congr (k.dead t hd).1).mpr ha)

/-- The calls and routines that leave the mutexes alone. -/
theorem CeilInv.keeps (inv : CeilInv x l s) (k : MtxKeeps s s')
    (haway : ∀ t m, x = some t → t ∈ s'.queue (.mtx, m) → s.IsCeiling m → t ∈ s.queue (.mtx, m)) :
    CeilInv x l s' where
  nodup := k.nodup inv.nodup
  linked t m ht := by
    rcases k.member inv.nodup t m ht with hw | ⟨ht, hwaits, hdead⟩
    · exact .inl hw
    · exact (inv.linked t m ht).imp hwaits fun h => ⟨hdead h.1, k.isCeiling.not.mpr h.2⟩
  away t m hx ht hc := inv.away t m hx (haway t m hx ht (k.isCeiling.mp hc)) (k.isCeiling.mp hc)
  dead t hd hq := by
    obtain ⟨hstate, hsub⟩ := k.dead t hd
    rw [k.mtxlist]
    refine inv.dead t ((alive_congr hstate).not.mp hd) (hq.imp (fun h => hstate ▸ h) ?_)
    rintro ⟨q, hq⟩
    exact ⟨q, hsub q hq⟩
  holds t ha hx := by
    have hold : (s.tcb t).mtxlist = [] ∨ s.Holds t := by
      by_cases ha' : (s.tcb t).Alive
      · exact .inr (inv.holds t ha' hx)
      · exact .inl (inv.dead t ha' (.inr ((k.alive t ha).resolve_left ha')))
    rcases hold with hnil | hold
    · constructor <;> simp [k.mtxlist, hnil]
    · refine ⟨k.mtxlist t ▸ hold.nodup, fun m hm => ?_, fun m hm hc => ?_⟩
      · rw [k.mtxtsk, k.objatr]
        exact hold.held m (k.mtxlist t ▸ hm)
      · rw [k.ceilpri, k.bpriority]
        exact hold.ceiling m (k.mtxlist t ▸ hm) (k.isCeiling.mp hc)
  free m hm t ha hx hmem := by
    rw [k.mtxlist] at hmem
    by_cases ha' : (s.tcb t).Alive
    · exact inv.free m hm t ha' hx hmem
    · rw [inv.dead t ha' (.inr ((k.alive t ha).resolve_left ha'))] at hmem
      cases hmem
  pending := ⟨inv.pending.1, fun m hm => k.objatr m ▸ inv.pending.2 m hm⟩
  giver t hx m hm := by
    obtain ⟨ha, ht⟩ := inv.giver t hx m hm
    rw [k.mtxtsk]
    exact ⟨k.stays_alive ha, ht⟩
  owner t m hreg ht := by
    rw [k.mtxtsk] at ht
    rw [k.objatr] at hreg
    rw [k.mtxlist]
    exact (inv.owner t m hreg ht).imp_right fun h => ⟨⟨k.stays_alive h.1.1, h.1.2⟩, h.2⟩
  other t m hw := by
    rw [k.mtxtsk]
    exact inv.other t m (k.waits t m hw)
  waits t m hw hc := by
    rw [k.ceilpri, k.bpriority]
    exact inv.waits t m (k.waits t m hw) (k.isCeiling.mp hc)

theorem CeilInv.keeps_none (inv : CeilInv none l s) (k : MtxKeeps s s') : CeilInv none l s' :=
  inv.keeps k nofun

theorem CeilInv.not_mem (inv : CeilInv x l s) (ha : (s.tcb t).Alive) (hw : ∀ m, ¬s.WaitsMtx t m) :
    t ∉ s.queue (.mtx, m) := fun ht => (inv.linked t m ht).elim (hw m) fun h => h.1 ha

theorem CeilInv.not_mem_runs (inv : CeilInv x l s) (runs : s.Runs t) : t ∉ s.queue (.mtx, m) :=
  inv.not_mem runs.alive fun _ => runs.not_waitsMtx

/-! ## A mutex goes to another task -/

/-- The task holds the mutex no more. -/
theorem CeilInv.released (inv : CeilInv none [] s) (hreg : s.objatr (.mtx, id) ≠ none)
    (hid : s.mtxtsk id = some t) : CeilInv none [id] (s.releaseMutex t (some id)).1 := by
  have htcb (u : Tsk) : ((s.releaseMutex t (some id)).1.tcb u).state = (s.tcb u).state ∧
      ((s.releaseMutex t (some id)).1.tcb u).bpriority = (s.tcb u).bpriority ∧
      (s.releaseMutex t (some id)).1.waitQueue u = s.waitQueue u := by
    unfold releaseMutex waitQueue
    dsimp only
    rw [upd_tcb]
    split_ifs with hu
    · rw [hu]
      exact ⟨rfl, rfl, rfl⟩
    · exact ⟨rfl, rfl, rfl⟩
  have hlist (u : Tsk) (m : ID) : m ∈ ((s.releaseMutex t (some id)).1.tcb u).mtxlist ↔
      m ∈ (s.tcb u).mtxlist ∧ ¬(u = t ∧ m = id) := by
    unfold releaseMutex
    dsimp only
    rw [upd_tcb]
    split_ifs with hu
    · simp [hu]
    · simp [hu]
  have halive (u : Tsk) : ((s.releaseMutex t (some id)).1.tcb u).Alive ↔ (s.tcb u).Alive :=
    alive_congr (htcb u).1
  have hwaits (u : Tsk) (m : ID) : (s.releaseMutex t (some id)).1.WaitsMtx u m ↔
      s.WaitsMtx u m := by
    unfold WaitsMtx
    rw [(htcb u).1, (htcb u).2.2]
  refine ⟨inv.nodup, fun u m hu => ?_, nofun, fun u hd hq => ?_, fun u ha _ => ?_,
    fun m hm u ha _ hmem => ?_, ⟨List.nodup_singleton id, fun m hm => ?_⟩, nofun,
    fun u m hr hu => ?_, fun u m hw => inv.other u m ((hwaits u m).mp hw), fun u m hw hc => ?_⟩
  · rw [hwaits, halive]
    exact inv.linked u m hu
  · rw [halive] at hd
    rw [(htcb u).1] at hq
    have hnil := inv.dead u hd hq
    refine List.eq_nil_iff_forall_not_mem.mpr fun m hm => ?_
    rw [hlist, hnil] at hm
    cases hm.1
  · have hold := inv.holds u ((halive u).mp ha) nofun
    refine ⟨?_, fun m hm => hold.held m ((hlist u m).mp hm).1, fun m hm hc => ?_⟩
    · unfold releaseMutex
      dsimp only
      rw [upd_tcb]
      split_ifs with hu
      · rw [← hu]
        exact hold.nodup.filter _
      · exact hold.nodup
    · rw [(htcb u).2.1]
      exact hold.ceiling m ((hlist u m).mp hm).1 hc
  · rw [List.mem_singleton.mp hm, hlist] at hmem
    have hheld := ((inv.holds u ((halive u).mp ha) nofun).held id hmem.1).1
    exact hmem.2 ⟨Option.some.inj (hheld.symm.trans hid), rfl⟩
  · rw [List.mem_singleton.mp hm]
    exact hreg
  · obtain ⟨⟨ha, hx⟩, hmem⟩ := (inv.owner u m hr hu).resolve_left (List.not_mem_nil)
    by_cases hm : m = id
    · exact .inl (List.mem_singleton.mpr hm)
    · exact .inr ⟨⟨(halive u).mpr ha, hx⟩, (hlist u m).mpr ⟨hmem, fun h => hm h.2⟩⟩
  · rw [(htcb u).2.1]
    exact inv.waits u m ((hwaits u m).mp hw) hc

theorem CeilInv.unowned (inv : CeilInv none [] s) (hreg : s.objatr (.mtx, id) ≠ none)
    (hid : s.mtxtsk id = none) :
    CeilInv none [id] s := by
  refine ⟨inv.nodup, inv.linked, nofun, inv.dead, inv.holds, fun m hm u ha hx hmem => ?_,
    ⟨List.nodup_singleton id, fun m hm => ?_⟩, nofun, fun u m hr hu => ?_, inv.other, inv.waits⟩
  · have hheld := ((inv.holds u ha hx).held m hmem).1
    rw [List.mem_singleton.mp hm, hid] at hheld
    cases hheld
  · rw [List.mem_singleton.mp hm]
    exact hreg
  · exact .inr ((inv.owner u m hr hu).resolve_left List.not_mem_nil)

/-- The task gets the mutex. -/
theorem CeilInv.hold (inv : CeilInv x (m :: l) s) (ha : (s.tcb t).Alive) (hx : x ≠ some t)
    (hidle : ¬s.WaitsMtx t m) (hc : s.IsCeiling m → s.ceilpri m ≤ (s.tcb t).bpriority) :
    CeilInv x l (s.holdMutex t m) := by
  have hself : (s.holdMutex t m).tcb t = { s.tcb t with mtxlist := m :: (s.tcb t).mtxlist } :=
    upd_self
  have hother {u : Tsk} (hu : u ≠ t) : (s.holdMutex t m).tcb u = s.tcb u := upd_of_ne hu
  have hstate (u : Tsk) : ((s.holdMutex t m).tcb u).state = (s.tcb u).state ∧
      ((s.holdMutex t m).tcb u).bpriority = (s.tcb u).bpriority ∧
      (s.holdMutex t m).waitQueue u = s.waitQueue u := by
    unfold waitQueue
    by_cases hu : u = t
    · rw [hu, hself]
      exact ⟨rfl, rfl, rfl⟩
    · rw [hother hu]
      exact ⟨rfl, rfl, rfl⟩
  have halive (u : Tsk) : ((s.holdMutex t m).tcb u).Alive ↔ (s.tcb u).Alive :=
    alive_congr (hstate u).1
  have hwaits (u : Tsk) (m' : ID) : (s.holdMutex t m).WaitsMtx u m' ↔ s.WaitsMtx u m' := by
    unfold WaitsMtx
    rw [(hstate u).1, (hstate u).2.2]
  have hmtxtsk (m' : ID) : (s.holdMutex t m).mtxtsk m' = if m' = m then some t else s.mtxtsk m' :=
    Function.update_apply ..
  obtain ⟨hnodup, hpending⟩ := inv.pending
  obtain ⟨hml, hnodup⟩ := List.nodup_cons.mp hnodup
  refine ⟨inv.nodup, fun u m' hu => ?_, inv.away, fun u hd hq => ?_, fun u ha' hx' => ?_,
    fun m' hm' u ha' hx' => ?_, ⟨hnodup, fun m' hm' => hpending m' (List.mem_cons_of_mem m hm')⟩,
    fun u hu m' hm' => ?_, fun u m' hr hu => ?_, fun u m' hw => ?_, fun u m' hw hc' => ?_⟩
  · rw [hwaits, halive]
    exact inv.linked u m' hu
  · rw [halive] at hd
    rw [(hstate u).1] at hq
    rw [hother fun e : u = t => hd (e ▸ ha)]
    exact inv.dead u hd hq
  · have hfree := inv.free m List.mem_cons_self u ((halive u).mp ha') hx'
    have hold := inv.holds u ((halive u).mp ha') hx'
    have hheld {m' : ID} (hm' : m' ∈ (s.tcb u).mtxlist) :
        (s.holdMutex t m).mtxtsk m' = some u ∧ s.objatr (.mtx, m') ≠ none := by
      rw [hmtxtsk, if_neg fun e : m' = m => hfree (e ▸ hm')]
      exact hold.held m' hm'
    by_cases hu : u = t
    · subst hu
      refine ⟨?_, fun m' hm' => ?_, fun m' hm' hc' => ?_⟩
      · rw [hself]
        exact List.nodup_cons.mpr ⟨hfree, hold.nodup⟩
      · rw [hself] at hm'
        rcases List.mem_cons.mp hm' with rfl | hm'
        · exact ⟨by rw [hmtxtsk, if_pos rfl], hpending m' List.mem_cons_self⟩
        · exact hheld hm'
      · rw [(hstate u).2.1]
        rw [hself] at hm'
        rcases List.mem_cons.mp hm' with rfl | hm'
        · exact hc hc'
        · exact hold.ceiling m' hm' hc'
    · refine ⟨?_, fun m' hm' => ?_, fun m' hm' => ?_⟩
      · rw [hother hu]
        exact hold.nodup
      · rw [hother hu] at hm'
        exact hheld hm'
      · rw [hother hu] at hm' ⊢
        exact hold.ceiling m' hm'
  · have hfree := inv.free m' (List.mem_cons_of_mem m hm') u ((halive u).mp ha') hx'
    by_cases hu : u = t
    · subst hu
      rw [hself]
      exact fun h => (List.mem_cons.mp h).elim (fun e => hml (e ▸ hm')) hfree
    · rw [hother hu]
      exact hfree
  · rw [halive, hmtxtsk, if_neg fun e : m' = m => hml (e ▸ hm')]
    exact inv.giver u hu m' (List.mem_cons_of_mem m hm')
  · rw [hmtxtsk] at hu
    rw [halive]
    by_cases hm' : m' = m
    · subst hm'
      rw [if_pos rfl] at hu
      cases hu
      refine .inr ⟨⟨ha, hx⟩, ?_⟩
      rw [hself]
      exact List.mem_cons_self
    · rw [if_neg hm'] at hu
      rcases inv.owner u m' hr hu with hmem | ⟨ha', hmem⟩
      · exact .inl (List.mem_of_ne_of_mem hm' hmem)
      · refine .inr ⟨ha', ?_⟩
        by_cases hut : u = t
        · subst hut
          rw [hself]
          exact List.mem_cons_of_mem m hmem
        · rw [hother hut]
          exact hmem
  · have hw' := (hwaits u m').mp hw
    rw [hmtxtsk]
    split_ifs with hm'
    · rintro e
      cases e
      exact hidle (hm' ▸ hw')
    · exact inv.other u m' hw'
  · rw [(hstate u).2.1]
    exact inv.waits u m' ((hwaits u m').mp hw) hc'

/-- The mutex goes to nobody. -/
theorem CeilInv.drop (inv : CeilInv x (m :: l) s) :
    CeilInv x l { s with mtxtsk := Function.update s.mtxtsk m none } := by
  obtain ⟨hnodup, hpending⟩ := inv.pending
  refine ⟨inv.nodup, inv.linked, inv.away, inv.dead, fun u ha hx => ?_,
    fun m' hm' => inv.free m' (List.mem_cons_of_mem m hm'), ⟨(List.nodup_cons.mp hnodup).2,
    fun m' hm' => hpending m' (List.mem_cons_of_mem m hm')⟩, fun u hu m' hm' => ?_,
      fun u m' hr hu => ?_,
    fun u m' hw => ?_, inv.waits⟩
  · have hold := inv.holds u ha hx
    refine ⟨hold.nodup, fun m' hm' => ?_, hold.ceiling⟩
    have hne : m' ≠ m := fun e => inv.free m List.mem_cons_self u ha hx (e ▸ hm')
    exact ⟨(Function.update_of_ne hne _ _).trans (hold.held m' hm').1, (hold.held m' hm').2⟩
  · obtain ⟨ha, ht⟩ := inv.giver u hu m' (List.mem_cons_of_mem m hm')
    have hne : m' ≠ m := fun e => (List.nodup_cons.mp hnodup).1 (e ▸ hm')
    exact ⟨ha, (Function.update_of_ne hne _ _).trans ht⟩
  · change Function.update s.mtxtsk m none m' = some u at hu
    have hne : m' ≠ m := fun e => by
      rw [e, Function.update_self] at hu
      cases hu
    rw [Function.update_of_ne hne] at hu
    exact (inv.owner u m' hr hu).imp_left (List.mem_of_ne_of_mem hne)
  · change Function.update s.mtxtsk m none m' ≠ some u
    rw [Function.update_apply]
    split_ifs
    · nofun
    · exact inv.other u m' hw

theorem changeTaskPriority_queue (t : Tsk) (h : Hook) (p : ℕ)
    (ht : (s.tcb t).state.isWait = false) :
    (s.changeTaskPriority t h p).queue = s.queue := by
  have hidle : s.changePriority t h.served p = ((s.upd t fun c => { c with priority := p }).touch t,
      none) := by
    unfold changePriority
    rw [if_neg]
    simpa using ht
  unfold changeTaskPriority
  rcases h.depth with _ | _ | depth
  · rfl
  · change (s.changePriority t h.served p).1.queue = s.queue
    rw [hidle]
    rfl
  · change (chain h.served (depth + 1) (s.changePriority t h.served p)).queue = s.queue
    rw [hidle]
    rfl

theorem released_alive (c : TaskCB) : c.released.Alive := by
  unfold TaskCB.released TaskCB.Alive
  split_ifs <;> simp

theorem passMutex_sub (h : Hook) (m : ID) (t : Tsk) (q : QueueId)
    (ht : t ∈ (s.passMutex h m).queue q) :
    t ∈ s.queue q := by
  unfold passMutex at ht
  split at ht
  · exact ht
  · next u us hq =>
    have hqueue : ((s.waitRelease u).holdMutex u m).queue = (s.waitRelease u).queue := rfl
    have hidle : (((s.waitRelease u).holdMutex u m).tcb u).state.isWait = false := by
      rw [Kern.holdMutex, upd_self]
      change ((s.waitRelease u).tcb u).state.isWait = false
      rw [waitRelease_self, isWait_released]
    dsimp only at ht
    split_ifs at ht
    · rw [changeTaskPriority_queue u h _ hidle, hqueue, waitRelease_queue] at ht
      exact List.mem_of_mem_erase ht
    · rw [hqueue, waitRelease_queue] at ht
      exact List.mem_of_mem_erase ht

theorem CeilInv.pass (inv : CeilInv x (m :: l) s) (h : Hook) : CeilInv x l (s.passMutex h m) := by
  unfold passMutex
  split
  · exact inv.drop
  · next u us hq =>
    have hu : u ∈ s.queue (.mtx, m) := hq ▸ List.mem_cons_self
    have hrelease : MtxKeeps s (s.waitRelease u) := .release (.inl ⟨_, hu⟩)
    have hinv : CeilInv x (m :: l) (s.waitRelease u) := by
      refine inv.keeps hrelease fun t m' _ ht _ => ?_
      rw [waitRelease_queue] at ht
      exact List.mem_of_mem_erase ht
    have hx : x ≠ some u := fun hx => by
      obtain ⟨ha, hmtxtsk⟩ := inv.giver u hx m List.mem_cons_self
      exact (inv.linked u m hu).elim (fun hw => inv.other u m hw hmtxtsk) fun h => h.1 ha
    have hheld : CeilInv x l ((s.waitRelease u).holdMutex u m) := by
      refine hinv.hold (by rw [waitRelease_self]; exact released_alive _) hx (fun hw => ?_)
        fun hc => ?_
      · have hwait := hw.1
        rw [waitRelease_self, isWait_released] at hwait
        cases hwait
      · rw [hrelease.isCeiling] at hc
        rw [hrelease.ceilpri, hrelease.bpriority]
        exact inv.waits u m ((inv.linked u m hu).resolve_right fun h => h.2 hc) hc
    have hidle : (((s.waitRelease u).holdMutex u m).tcb u).state.isWait = false := by
      rw [Kern.holdMutex, upd_self]
      change ((s.waitRelease u).tcb u).state.isWait = false
      rw [waitRelease_self, isWait_released]
    dsimp only
    split_ifs
    · refine hheld.keeps (.changeTaskPriority ..) fun t m' _ ht _ => ?_
      rwa [changeTaskPriority_queue u h _ hidle] at ht
    · exact hheld

theorem CeilInv.signal (inv : CeilInv x l s) (h : Hook) :
    CeilInv x [] (l.foldl (fun s m => s.passMutex h m) s) := by
  induction l generalizing s with
  | nil => exact inv
  | cons m l ih => exact ih (inv.pass h)

/-! ## The end of a task -/

theorem CeilInv.leave (inv : CeilInv none [] s) (ha : (s.tcb t).Alive)
    (ht : ∀ m, t ∉ s.queue (.mtx, m)) :
    CeilInv (some t) (s.tcb t).mtxlist s := by
  have hold := inv.holds t ha nofun
  refine ⟨inv.nodup, inv.linked, fun u m hx hu => ?_, inv.dead, fun u ha _ => inv.holds u ha nofun,
    fun m hm u hu hx hmem => ?_, ⟨hold.nodup, fun m hm => (hold.held m hm).2⟩, fun u hx m hm => ?_,
    fun u m hr hu => ?_, inv.other, inv.waits⟩
  · cases hx
    exact absurd hu (ht m)
  · have h₁ := (hold.held m hm).1
    rw [((inv.holds u hu nofun).held m hmem).1] at h₁
    exact hx h₁.symm
  · cases hx
    exact ⟨ha, (hold.held m hm).1⟩
  · obtain ⟨⟨hu', -⟩, hmem⟩ := (inv.owner u m hr hu).resolve_left List.not_mem_nil
    by_cases hut : u = t
    · exact .inl (hut ▸ hmem)
    · exact .inr ⟨⟨hu', fun e => hut (Option.some.inj e).symm⟩, hmem⟩

/-- The mutex of a wait that is ended by inheritance has no ceiling. -/
theorem LinkInv.inherit_not_ceiling {good : Prop} (link : LinkInv good (none, s))
    (hspec : (s.tcb t).wspec = .mtxInherit) (hw : s.WaitsMtx t m) : ¬s.IsCeiling m := by
  obtain ⟨atr, hatr, hatrspec⟩ := link.registered t (.mtx, m) ⟨hw.1, nofun⟩ hw.2
  have hinherit : atr &&& TA_CEILING = TA_INHERIT := by
    have h : WaitKind.wspec atr .mtx = .mtxInherit := hatrspec.symm.trans hspec
    unfold WaitKind.wspec at h
    split_ifs at h with hi
    exact hi.2
  have hobj : s.objatr (.mtx, m) = some atr := hatr
  unfold IsCeiling
  rw [hobj, Option.getD_some, hinherit]
  decide

theorem suspend_of_alive (hr : (s.tcb t).state ≠ .ready) (hw : ¬(s.tcb t).state.isWait)
    (ha : (s.tcb t).Alive) :
    (s.tcb t).state = .suspend := by
  unfold TaskCB.Alive at ha
  cases hs : (s.tcb t).state <;> simp_all [TaskState.isWait]

theorem CeilInv.terLeave (inv : CeilInv none [] s) (link : LinkInv False (none, s)) (h : Hook)
    (ha : (s.tcb t).Alive) :
    CeilInv (some t) ((s.terLeave t h).tcb t).mtxlist (s.terLeave t h) := by
  unfold Kern.terLeave
  split_ifs with hr hw
  · have hkeeps : MtxKeeps s (s.makeNonReady t) :=
      .upd t (fun c => { c with ready := false }) ⟨rfl, rfl, rfl, rfl, rfl⟩
    have hmem (m : ID) : t ∉ (s.makeNonReady t).queue (.mtx, m) := inv.not_mem_runs (.inl hr)
    exact (inv.keeps_none hkeeps).leave (by rw [makeNonReady, upd_self]; exact ha) hmem
  · have hcancel : MtxKeeps s (s.waitCancel t) := .cancel t
    have hself : (s.waitCancel t).tcb t = { s.tcb t with timed := false } := by
      rw [waitCancel, queRemove_tcb, upd_self]
    have hmem (m : ID) : t ∉ (s.waitCancel t).queue (.mtx, m) :=
      fun hm => ((inv.nodup m).mem_erase_iff.mp hm).1 rfl
    have hleft := (inv.keeps_none hcancel).leave (t := t) (by rw [hself]; exact ha) hmem
    have hkeeps : MtxKeeps (s.waitCancel t) ((s.waitCancel t).relWaiHook t h) := .relWaiHook t h
    rw [hkeeps.mtxlist]
    refine hleft.keeps hkeeps fun u m hu ht hc => ?_
    cases hu
    by_cases hspec : (s.tcb t).wspec = .mtxInherit
    · -- only here the hook can put the task in a queue again
      rcases hkeeps.member (hcancel.nodup inv.nodup) t m ht with hwaits | ⟨ht, -⟩
      · exact absurd (hcancel.isCeiling.mp hc)
          (link.inherit_not_ceiling hspec (hcancel.waits t m (hkeeps.waits t m hwaits)))
      · exact ht
    · unfold Kern.relWaiHook at ht
      rw [hself] at ht
      split at ht
      · split_ifs at ht
        · exact (wakeup_queue_sublist _ _ _ _).subset ht
        · exact ht
      · next he => exact absurd he hspec
      · exact ht
  · exact inv.leave ha fun m => inv.not_mem_runs (.inr (suspend_of_alive hr hw ha))

theorem CeilInv.terTask (inv : CeilInv none [] s) (link : LinkInv False (none, s)) (h : Hook)
    (ha : (s.tcb t).Alive) :
    CeilInv (some t) [] (s.terTask t h) := (inv.terLeave link h ha).signal h

/-- The task that handed over its mutexes ends. -/
theorem CeilInv.ended (inv : CeilInv (some t) [] s) {f : TaskCB → TaskCB}
    (hf : ¬(f (s.tcb t)).Alive)
    (hlist : ((f (s.tcb t)).state = .dormant ∨ ∃ q, t ∈ s.queue q) → (f (s.tcb t)).mtxlist = []) :
    CeilInv none [] (s.upd t f) := by
  have hself : (s.upd t f).tcb t = f (s.tcb t) := upd_self
  have hother {u : Tsk} (hu : u ≠ t) : (s.upd t f).tcb u = s.tcb u := upd_of_ne hu
  have hidle (m : ID) : ¬(s.upd t f).WaitsMtx t m := fun hw => hf (hself ▸ alive_of_isWait hw.1)
  have hne {u : Tsk} (hu : ((s.upd t f).tcb u).Alive) : u ≠ t := fun e => by
    rw [e, hself] at hu
    exact hf hu
  have hx {u : Tsk} (hu : u ≠ t) : (some t : Option Tsk) ≠ some u :=
    fun e => hu (Option.some.inj e).symm
  refine ⟨inv.nodup, fun u m hu => ?_, nofun, fun u hd hq => ?_, fun u ha _ => ?_, nofun,
    ⟨List.nodup_nil, nofun⟩, nofun, fun u m hr hu => ?_, fun u m hw => ?_, fun u m hw hc => ?_⟩
  · by_cases hut : u = t
    · subst hut
      exact .inr ⟨hself ▸ hf, inv.away u m rfl hu⟩
    · rw [waitsMtx_congr (hother hut), hother hut]
      exact inv.linked u m hu
  · by_cases hut : u = t
    · subst hut
      rw [hself] at hq ⊢
      exact hlist hq
    · rw [hother hut] at hd hq ⊢
      exact inv.dead u hd hq
  · have hut := hne ha
    rw [hother hut] at ha
    obtain ⟨h₁, h₂, h₃⟩ := inv.holds u ha (hx hut)
    refine ⟨?_, ?_, ?_⟩ <;> rw [hother hut]
    · exact h₁
    · exact h₂
    · exact h₃
  · obtain ⟨⟨hu', hx'⟩, hmem⟩ := (inv.owner u m hr hu).resolve_left List.not_mem_nil
    have hut : u ≠ t := fun e => hx' (e ▸ rfl)
    rw [hother hut]
    exact .inr ⟨⟨hu', nofun⟩, hmem⟩
  · have hut : u ≠ t := fun e => hidle m (e ▸ hw)
    exact inv.other u m ((waitsMtx_congr (hother hut)).mp hw)
  · have hut : u ≠ t := fun e => hidle m (e ▸ hw)
    rw [hother hut]
    exact inv.waits u m ((waitsMtx_congr (hother hut)).mp hw) hc

theorem CeilInv.makeDormant (inv : CeilInv (some t) [] s) : CeilInv none [] (s.makeDormant t) :=
  inv.ended (fun h => h.2 rfl) fun _ => rfl

/-- A task in execution is in no queue, also while it ends. -/
theorem terTask_not_mem (inv : CeilInv none [] s) (link : LinkInv False (none, s)) (h : Hook)
    (runs : s.Runs t) (q : QueueId) : t ∉ (s.terTask t h).queue q := by
  have hq : t ∉ s.queue q := by
    by_cases hk : q.1 = .mtx
    · rw [← Prod.mk.eta (p := q), hk]
      exact inv.not_mem_runs runs
    · exact link.not_mem (fun hw => absurd hw runs.not_active) (.inr hk)
  have hleave : t ∉ (s.terLeave t h).queue q := by
    unfold Kern.terLeave
    split_ifs with hr hw
    · exact hq
    · exact absurd hw (by rw [runs.not_isWait]; exact Bool.false_ne_true)
    · exact hq
  have hfold : ∀ (l : List ID) (s : Kern), t ∉ s.queue q →
      t ∉ (l.foldl (fun s m => s.passMutex h m) s).queue q := by
    intro l
    induction l with
    | nil => exact fun _ => id
    | cons m l ih => exact fun s hs => ih _ fun ht => hs (passMutex_sub h m t q ht)
  exact hfold _ _ hleave

end SmpTKernel
