import SmpTKernel.DomainIds
import SmpTKernel.KernelInv
import SmpTKernel.ObjectLife
import SmpTKernel.ObjectNameInv

/-!
# Creation is all or nothing

A creation that fails gives back what it took, in the order of its steps, and leaves the whole state
as it was. A deletion releases the tasks in the queues of the object, each once; the queue of a
mutex is reordered before by what the loss of the mutex does to the priority of its holder, but has
the same tasks.
-/

namespace SmpTKernel

open Kern

variable {cfg : DomCfg} {s s' : Kern} {t u : Tsk} {q p : QueueId} {id : ID}

/-! ## Memory -/

theorem freeAreas_append {areas l : List ImallocArea} (h : l.Perm areas) (heap : List ImallocArea) :
    freeAreas (l ++ heap) areas = heap := by
  unfold freeAreas
  induction areas generalizing l with
  | nil => rw [List.perm_nil.mp h, List.nil_append, List.foldl_nil]
  | cons a areas ih =>
    have ha : a ∈ l := h.mem_iff.mpr List.mem_cons_self
    rw [List.foldl_cons, List.erase_append_left _ ha]
    exact ih (List.cons_perm_iff_perm_erase.mp h.symm).2.symm

theorem allocAreas_cases (reqs : List HeapRequest) (got heap : List ImallocArea) :
    allocAreas reqs got (got.reverse ++ heap) = (heap, none) ∨
      ∃ areas, allocAreas reqs got (got.reverse ++ heap) = (areas.reverse ++ heap, some areas) := by
  induction reqs generalizing got with
  | nil => exact Or.inr ⟨got, rfl⟩
  | cons req reqs ih =>
    unfold allocAreas
    split
    · left
      rw [freeAreas_append (List.reverse_perm got)]
    · next ptr _ =>
      have h := ih (got ++ [⟨SelIMACB req.attr, ptr⟩])
      rwa [List.reverse_append] at h

/-! ## The released tasks -/

theorem deleteWaits_fst (q : QueueId) (n : ℕ) (s : Kern) :
    (deleteWaits q n s).1 = wakeup q n s := by
  induction n generalizing s with
  | zero => rfl
  | succ n ih =>
    unfold deleteWaits wakeup
    cases s.queue q with
    | nil => rfl
    | cons t ts => exact ih _

theorem deleteWaits_snd (q : QueueId) (n : ℕ) (s : Kern) :
    (deleteWaits q n s).2 = ((s.queue q).take n).map fun t => (t, E_DLT) := by
  induction n generalizing s with
  | zero => simp [deleteWaits]
  | succ n ih =>
    unfold deleteWaits
    split
    · next hq => simp [hq]
    · next u us hq => simp [ih, hq]

/-- Releasing the tasks of one queue leaves a queue with other tasks as it is. -/
theorem wakeup_queue_of_disjoint (h : ∀ u ∈ s.queue q, u ∉ s.queue p) (n : ℕ) :
    (wakeup q n s).queue p = s.queue p := by
  induction n generalizing s with
  | zero => rfl
  | succ n ih =>
    unfold wakeup
    split
    · rfl
    · next u us hq =>
      have hu : u ∉ s.queue p := h u (hq ▸ List.mem_cons_self)
      have hp : (s.waitRelease u).queue p = s.queue p := by
        rw [waitRelease_queue, List.erase_of_not_mem hu]
      rw [ih, hp]
      intro v hv
      rw [hp]
      exact h v (List.mem_of_mem_erase (waitRelease_queue q ▸ hv))

theorem wakeup_idle (q : QueueId) (n : ℕ) (h : (s.tcb u).state.isWait = false) :
    ((wakeup q n s).tcb u).state.isWait = false := by
  induction n generalizing s with
  | zero => exact h
  | succ n ih =>
    unfold wakeup
    split
    · exact h
    · next v vs _ =>
      refine ih ?_
      by_cases hu : u = v
      · rw [hu, waitRelease_self, isWait_released]
      · rwa [waitRelease_of_ne hu]

theorem wakeup_released {n : ℕ} (h : u ∈ (s.queue q).take n) :
    ((wakeup q n s).tcb u).state.isWait = false := by
  induction n generalizing s with
  | zero => simp at h
  | succ n ih =>
    unfold wakeup
    split
    · next hq => simp [hq] at h
    · next v vs hq =>
      rw [hq, List.take_succ_cons] at h
      rcases List.mem_cons.mp h with rfl | h
      · exact wakeup_idle q n (by rw [waitRelease_self, isWait_released])
      · refine ih ?_
        rwa [waitRelease_queue, hq, List.erase_cons_head]

theorem LinkInv.disjoint (link : LinkInv True (none, s)) (h : p ≠ q) :
    ∀ u ∈ s.queue p, u ∉ s.queue q := by
  intro u hp hq
  have hpq :=
    (link.waits u p (Or.inl trivial) hp).2.symm.trans (link.waits u q (Or.inl trivial) hq).2
  exact h (Option.some.inj hpq)

theorem deleteQueues_fst (id : ID) (ws : List WaitKind) (s : Kern) :
    (deleteQueues id ws s).1 = ws.foldl (fun s w => s.waitDelete (w, id)) s := by
  induction ws generalizing s with
  | nil => rfl
  | cons w ws ih =>
    unfold deleteQueues
    dsimp only
    rw [ih, deleteWaits_fst]
    rfl

theorem deleteQueues_snd (link : LinkInv True (none, s)) (id : ID) {ws : List WaitKind}
    (hws : ws.Nodup) :
    (deleteQueues id ws s).2 = ws.flatMap fun w => (s.queue (w, id)).map fun t => (t, E_DLT) := by
  induction ws generalizing s with
  | nil => rfl
  | cons w ws ih =>
    obtain ⟨hw, hws⟩ := List.nodup_cons.mp hws
    have link' : LinkInv True (none, s.waitDelete (w, id)) := link.steps (wakeup_steps ..)
    unfold deleteQueues
    dsimp only
    rw [deleteWaits_snd, deleteWaits_fst, List.take_length, List.flatMap_cons]
    congr 1
    change (deleteQueues id ws (s.waitDelete (w, id))).2 = _
    rw [ih link' hws]
    refine List.flatMap_congr fun w' hw' => ?_
    have hne : ((w, id) : QueueId) ≠ (w', id) := fun e => hw ((Prod.mk.inj e).1 ▸ hw')
    rw [waitDelete, wakeup_queue_of_disjoint (link.disjoint hne)]

theorem deleteQueues_idle (link : LinkInv True (none, s)) {ws : List WaitKind}
    (h : (∃ w ∈ ws, u ∈ s.queue (w, id)) ∨ (s.tcb u).state.isWait = false) :
    ((deleteQueues id ws s).1.tcb u).state.isWait = false := by
  rw [deleteQueues_fst]
  induction ws generalizing s with
  | nil => exact h.resolve_left fun ⟨w, hw, _⟩ => absurd hw List.not_mem_nil
  | cons w ws ih =>
    rw [List.foldl_cons]
    refine ih (link.steps (wakeup_steps ..)) ?_
    rcases h with ⟨w', hw', hu⟩ | h
    · by_cases hww : w' = w
      · right
        refine wakeup_released ?_
        rwa [List.take_length, ← hww]
      · left
        refine ⟨w', (List.mem_cons.mp hw').resolve_left hww, ?_⟩
        have hne : ((w, id) : QueueId) ≠ (w', id) := fun e => hww (Prod.mk.inj e).1.symm
        rwa [waitDelete, wakeup_queue_of_disjoint (link.disjoint hne)]
    · exact Or.inr (wakeup_idle _ _ h)

/-! ## The holder of a mutex that is deleted -/

theorem LinkInv.requeue_mem (link : LinkInv True (none, s)) (ht : (s.tcb t).state.isWait)
    (hq : s.waitQueue t = some q) : u ∈ (s.requeue t q).queue p ↔ u ∈ s.queue p := by
  unfold Kern.requeue
  by_cases hp : p = q
  · subst hp
    rw [setQueue_self]
    exact (gcbChangePriority_perm _ (link.linked t p ⟨ht, Option.some_ne_none t⟩ hq)).mem_iff
  · rw [setQueue_of_ne hp]

theorem mtxChgPri_queue (s : Kern) (t : Tsk) (oldpri : ℕ) :
    (s.mtxChgPri t oldpri).1.queue = (s.requeue t (.mtx, (s.tcb t).wid)).queue := by
  unfold mtxChgPri
  dsimp only
  split_ifs
  · split
    · rfl
    · split_ifs <;> rfl
  · rfl

theorem chgPriHook_mem (link : LinkInv True (none, s)) (ht : (s.tcb t).state.isWait)
    (served oldpri : ℕ) (hp : p.1 = .mtx) :
    u ∈ (s.chgPriHook t served oldpri).1.queue p ↔ u ∈ s.queue p := by
  unfold chgPriHook
  split
  · next hspec =>
    rw [mtxChgPri_queue]
    exact link.requeue_mem ht (by simp [waitQueue, hspec, WaitSpec.kind])
  · next hspec =>
    rw [mtxChgPri_queue]
    exact link.requeue_mem ht (by simp [waitQueue, hspec, WaitSpec.kind])
  · next k hk hspec =>
    have hq : s.waitQueue t = some (k, (s.tcb t).wid) := by simp [waitQueue, hspec, WaitSpec.kind]
    dsimp only
    split_ifs with hserves
    · have link' : LinkInv True (none, s.requeue t (k, (s.tcb t).wid)) :=
        link.requeue hq (Or.inl ⟨ht, Option.some_ne_none t⟩)
      have hne : ((k, (s.tcb t).wid) : QueueId) ≠ p := fun e => by
        rw [← e] at hp
        rw [show k = .mtx from hp] at hserves
        cases hserves
      rw [wakeup_queue_of_disjoint (link'.disjoint hne)]
      exact link.requeue_mem ht hq
    · exact link.requeue_mem ht hq
  · rfl

theorem changePriority_mem (link : LinkInv True (none, s)) (t : Tsk) (served priority : ℕ)
    (hp : p.1 = .mtx) :
    u ∈ (s.changePriority t served priority).1.queue p ↔ u ∈ s.queue p := by
  have link' : LinkInv True (none, (s.upd t fun c => { c with priority := priority }).touch t) :=
    LinkInv.touch (link.held ⟨rfl, rfl, rfl, rfl, id⟩) t
  unfold changePriority
  dsimp only
  split_ifs with hw
  · rw [chgPriHook_mem link' hw _ _ hp]
    rfl
  · rfl

theorem chain_mem {r : Kern × Option (Tsk × ℕ)} (link : LinkInv True (none, r.1)) (served depth : ℕ)
    (hp : p.1 = .mtx) : u ∈ (chain served depth r).queue p ↔ u ∈ r.1.queue p := by
  induction depth generalizing r with
  | zero => rfl
  | succ depth ih =>
    unfold chain
    split
    · rfl
    · next t priority _ =>
      have link' : LinkInv True (none, (r.1.changePriority t served priority).1) :=
        link.steps (changePriority_steps t served priority nofun)
      rw [ih link', changePriority_mem link t served priority hp]

theorem releaseHolder_mem (link : LinkInv True (none, s)) (h : Hook) (id : ID) (hp : p.1 = .mtx) :
    u ∈ (s.releaseHolder h id).queue p ↔ u ∈ s.queue p := by
  unfold releaseHolder
  split
  · rfl
  · next mtxtsk _ =>
    have link' : LinkInv True (none, (s.releaseMutex mtxtsk (some id)).1) :=
      link.steps (releaseMutex_steps ..)
    rw [chain_mem link' _ _ hp]
    rfl

theorem LinkInv.releaseHolder (link : LinkInv True (none, s)) (h : Hook) (id : ID) :
    LinkInv True (none, s.releaseHolder h id) := by
  unfold Kern.releaseHolder
  split
  · exact link
  · exact link.steps ((releaseMutex_steps ..).trans (chain_steps_none ..))

/-! ## Deletion -/

/-- The task waits for the object. -/
def Kern.WaitsFor (s : Kern) (t : ObjType) (id : ID) (u : Tsk) : Prop :=
  (s.tcb u).state.isWait ∧ ∃ w : WaitKind, some w.obj = t.objKind ∧ s.waitQueue u = some (w, id)

/-- The tasks that wait for the object are released, each once, with `E_DLT`. -/
structure ReleasedAll (s s' : Kern) (t : ObjType) (id : ID) (released : List (Tsk × ER)) :
    Prop where
  once : (released.map Prod.fst).Nodup
  all : ∀ u, u ∈ released.map Prod.fst ↔ s.WaitsFor t id u
  ercd : ∀ r ∈ released, r.2 = E_DLT
  free : ∀ u, s.WaitsFor t id u → (s'.tcb u).state.isWait = false ∧ ∀ q, u ∉ s'.queue q

theorem queues_nodup (k : ObjKind) : k.queues.Nodup := by cases k <;> decide

theorem mem_queues {k : ObjKind} {w : WaitKind} : w ∈ k.queues ↔ w.obj = k := by
  cases k <;> cases w <;> simp [ObjKind.queues, WaitKind.obj]

theorem LinkInv.waitsFor_iff (link : LinkInv True (none, s)) {t : ObjType} {k : ObjKind}
    (hk : t.objKind = some k) :
    s.WaitsFor t id u ↔ ∃ w ∈ k.queues, u ∈ s.queue (w, id) := by
  constructor
  · rintro ⟨hw, w, hobj, hq⟩
    rw [hk] at hobj
    exact ⟨w, mem_queues.mpr (Option.some.inj hobj), link.linked u (w, id)
      ⟨hw, Option.some_ne_none u⟩ hq⟩
  · rintro ⟨w, hw, hu⟩
    obtain ⟨hactive, hq⟩ := link.waits u (w, id) (Or.inl trivial) hu
    exact ⟨hactive.1, w, by rw [hk, mem_queues.mp hw], hq⟩

theorem LinkInv.deleteQueues (link : LinkInv True (none, s)) (k : ObjKind) (id : ID) :
    ((Kern.deleteQueues id k.queues s).2.map Prod.fst).Nodup ∧
      (∀ u, u ∈ (Kern.deleteQueues id k.queues s).2.map Prod.fst ↔
        ∃ w ∈ k.queues, u ∈ s.queue (w, id)) ∧
      (∀ r ∈ (Kern.deleteQueues id k.queues s).2, r.2 = E_DLT) := by
  rw [deleteQueues_snd link id (queues_nodup k)]
  have hmap : (k.queues.flatMap fun w => (s.queue (w, id)).map fun t => (t, E_DLT)).map Prod.fst =
      k.queues.flatMap fun w => s.queue (w, id) := by
    simp [List.map_flatMap, Function.comp_def]
  refine ⟨?_, fun u => ?_, fun r hr => ?_⟩
  · rw [hmap, List.nodup_flatMap]
    refine ⟨fun w _ => link.nodup _ (Or.inl trivial), (queues_nodup k).imp fun {w w'} hw => ?_⟩
    exact fun u hu hu' => link.disjoint (p := (w, id)) (q := (w', id)) (fun e =>
      hw (Prod.mk.inj e).1) u hu hu'
  · rw [hmap, List.mem_flatMap]
  · obtain ⟨w, -, hr⟩ := List.mem_flatMap.mp hr
    obtain ⟨u, -, rfl⟩ := List.mem_map.mp hr
    rfl

theorem deleteObj_fst (s : Kern) (h : Hook) {t : ObjType} {k : ObjKind} (hk : t.objKind = some k)
    (id : ID) :
    (s.deleteObj h t id).1 = (if k = .mtx then s.releaseHolder h id else s).deleted k id := by
  unfold Kern.deleteObj
  rw [hk]
  dsimp only
  rw [deleteQueues_fst]
  rfl

theorem LinkInv.deleteObj (link : LinkInv True (none, s)) (h : Hook) (t : ObjType) (id : ID) :
    LinkInv True (none, (s.deleteObj h t id).1) ∧
      ReleasedAll s (s.deleteObj h t id).1 t id (s.deleteObj h t id).2 := by
  cases hk : t.objKind with
  | none =>
    have hnot (u : Tsk) : ¬s.WaitsFor t id u := by
      rintro ⟨-, w, hw, -⟩
      rw [hk] at hw
      cases hw
    have hsame : s.deleteObj h t id = (s, []) := by
      unfold Kern.deleteObj
      rw [hk]
    rw [hsame]
    exact ⟨link, List.nodup_nil, fun u => iff_of_false List.not_mem_nil (hnot u), by simp,
      fun u hu => absurd hu (hnot u)⟩
  | some k =>
    have link₁ : LinkInv True (none, if k = .mtx then s.releaseHolder h id else s) := by
      split_ifs
      · exact link.releaseHolder h id
      · exact link
    have hmem (u : Tsk) :
      (∃ w ∈ k.queues, u ∈ (if k = .mtx then s.releaseHolder h id else s).queue (w, id)) ↔
        s.WaitsFor t id u := by
      rw [link.waitsFor_iff hk]
      split_ifs with hm
      · subst hm
        refine exists_congr fun w => and_congr_right fun hw => ?_
        exact releaseHolder_mem link h id (List.mem_singleton.mp hw)
      · rfl
    have link₂ : LinkInv True (none, (s.deleteObj h t id).1) := by
      rw [deleteObj_fst s h hk]
      exact link₁.steps (deleted_steps k id)
    obtain ⟨hnodup, hall, hercd⟩ := link₁.deleteQueues k id
    have hsnd : (s.deleteObj h t id).2 =
        (Kern.deleteQueues id k.queues (if k = .mtx then s.releaseHolder h id else s)).2 := by
      unfold Kern.deleteObj
      rw [hk]
    refine ⟨link₂, by rwa [hsnd], fun u => by rw [hsnd, hall u, hmem u], by
      rwa [hsnd], fun u hu => ?_⟩
    have hidle : ((s.deleteObj h t id).1.tcb u).state.isWait = false := by
      rw [deleteObj_fst s h hk]
      have := deleteQueues_idle link₁ (Or.inl ((hmem u).mpr hu))
      rwa [deleteQueues_fst] at this
    exact ⟨hidle, fun q hq => absurd (link₂.waits u q (Or.inl trivial) hq).1.1 (by simp [hidle])⟩

theorem deleteObj_none (s : Kern) (h : Hook) {t : ObjType} (ht : t.objKind = none) (id : ID) :
    s.deleteObj h t id = (s, []) := by
  unfold Kern.deleteObj
  rw [ht]

theorem objKind_inj {t t' : ObjType} {k : ObjKind} (h : t.objKind = some k)
    (h' : t'.objKind = some k) : t = t' := by
  cases t <;> cases h <;> cases t' <;> first | rfl | cases h'

theorem wakeup_objatr (q : QueueId) (n : ℕ) (s : Kern) : (wakeup q n s).objatr = s.objatr := by
  induction n generalizing s with
  | zero => rfl
  | succ n ih =>
    unfold wakeup
    split
    · rfl
    · rw [ih, waitRelease_objatr]

theorem releaseHolder_objatr (s : Kern) (h : Hook) (id : ID) :
    (s.releaseHolder h id).objatr = s.objatr := by
  unfold releaseHolder
  split
  · rfl
  · next mtxtsk _ =>
    have hrelease : Calm mtxtsk s (s.releaseMutex mtxtsk (some id)).1 := .releaseMutex ..
    exact (hrelease.trans (.chain ..)).objatr

theorem deleted_objatr (s : Kern) (k : ObjKind) (id : ID) (k' : ObjKind) (j : ID)
    (h : (s.deleted k id).objatr (k', j) ≠ none) : s.objatr (k', j) ≠ none ∧ (k', j) ≠ (k, id) := by
  have hfold (ws : List WaitKind) (s : Kern) :
      (ws.foldl (fun s w => s.waitDelete (w, id)) s).objatr = s.objatr := by
    induction ws generalizing s with
    | nil => rfl
    | cons w ws ih => rw [List.foldl_cons, ih, waitDelete, wakeup_objatr]
  change Function.update (k.queues.foldl (fun s w => s.waitDelete (w, id)) s).objatr (k, id) none
    (k', j) ≠ none at h
  rw [hfold] at h
  by_cases hkj : (k', j) = (k, id)
  · rw [hkj, Function.update_self] at h
    exact absurd rfl h
  · rw [Function.update_of_ne hkj] at h
    exact ⟨h, hkj⟩

theorem deleteObj_objatr {s : Kern} {h : Hook} {t t' : ObjType} {k : ObjKind} {j : ID}
    (hk : t'.objKind = some k) (hj : (s.deleteObj h t id).1.objatr (k, j) ≠ none) :
    s.objatr (k, j) ≠ none ∧ (t', j) ≠ (t, id) := by
  cases hkt : t.objKind with
  | none =>
    rw [deleteObj_none s h hkt] at hj
    refine ⟨hj, fun e => ?_⟩
    rw [(Prod.mk.inj e).1, hkt] at hk
    cases hk
  | some k' =>
    rw [deleteObj_fst s h hkt] at hj
    obtain ⟨hj, hne⟩ := deleted_objatr _ k' id k j hj
    refine ⟨?_, fun e => hne ?_⟩
    · split_ifs at hj
      · rwa [releaseHolder_objatr] at hj
      · exact hj
    · obtain ⟨rfl, rfl⟩ := Prod.mk.inj e
      rw [Option.some.inj (hk.symm.trans hkt)]

/-! ## All or nothing -/

variable {o : ObjectState} {t : ObjType} {i : ℕ} {v : ℤ}

/-- The control block for the ID was free and is now in use. -/
structure MadeAs (d d' : DomState) (t : ObjType) (id : ID) : Prop where
  cb_eq : ∃ cb : ObjCb, cb.id = id ∧ d'.cb = Function.update d.cb (t, INDEX t id) cb
  ne_zero : id ≠ 0
  new : ¬Live d (t, INDEX t id)

/-- A creation either fails and leaves the state, or goes on for ever in its protection check, or
makes an object. -/
inductive CreatedAll (cfg : DomCfg) (s : ObjectState) (t : ObjType) (init : ID → Kern → Kern) :
    ObjectState × Option ℤ → Prop
  | failed (v : ℤ) : CreatedAll cfg s t init (s, some v)
  | hangs (heap : List ImallocArea) : CreatedAll cfg s t init ({ s with heap := heap }, none)
  | made {s' : ObjectState} {domid : Option ID} {id : ID}
      (created : Created cfg s.names.dom t domid E_OK (s'.names.dom, some (id : ℤ)))
      (made : MadeAs s.names.dom s'.names.dom t id) (kern : s'.kern = init id s.kern) :
      CreatedAll cfg s t init (s', some (id : ℤ))

theorem checkOname_neg {cfg : DomCfg} {n : NameState} {domid : Option ID} {atr : ℕ} {oname : Bytes}
    (h : n.checkOname cfg t domid atr oname ≠ E_OK) :
    n.checkOname cfg t domid atr oname < E_OK := by
  unfold NameState.checkOname NameState.mpExistenceCheckOfOname at h ⊢
  split_ifs at h ⊢ <;> first | exact absurd rfl h | decide

/-- The names after a creation, by what the creation does to the control blocks. -/
theorem created_names {n : NameState} {domid : Option ID} {ercd : ER} {r : DomState × Option ℤ}
    (hercd : ercd ≠ E_OK → ercd < E_OK) (h : Created cfg n.dom t domid ercd r) (atr : ℕ)
    (oname : Bytes) :
    (n.created t domid atr oname r = (n, none)) ∨
      (∃ v < E_OK, n.created t domid atr oname r = (n, some v)) ∨
      ∃ id : ID, (n.created t domid atr oname r).2 = some (id : ℤ) ∧
        Created cfg n.dom t domid E_OK ((n.created t domid atr oname r).1.dom, some (id : ℤ)) := by
  have hdom : (n.created t domid atr oname r).1.dom = r.1 := created_dom r
  cases h with
  | failed v hv =>
    cases v with
    | none => exact Or.inl rfl
    | some v =>
      have hneg : v < E_OK := (hv v rfl).elim id fun h => h.1 ▸ hercd h.2
      exact Or.inr (Or.inl ⟨v, hneg, if_pos hneg⟩)
  | @made s' i rest cb free he target cb_eq id stkfree free_eq =>
    refine Or.inr (Or.inr ⟨cb.id, ?_, ?_⟩)
    · unfold NameState.created
      dsimp only
      rw [if_neg (not_lt.mpr (Int.natCast_nonneg _))]
    · rw [hdom]
      exact .made cb free rfl target cb_eq id stkfree free_eq

theorem IdInv.made {d : DomState} (ids : IdInv cfg d) (fits : cfg.Fits) {domid : Option ID}
    {d' : DomState} {id : ID} (h : Created cfg d t domid E_OK (d', some (id : ℤ))) :
    MadeAs d d' t id := by
  generalize hr : (d', some (id : ℤ)) = r at h
  cases h with
  | failed v hv =>
    obtain ⟨-, rfl⟩ := Prod.mk.inj hr
    rcases hv _ rfl with hneg | ⟨-, hne⟩
    · exact absurd hneg (not_lt.mpr (Int.natCast_nonneg _))
    · exact absurd rfl hne
  | @made s' i rest cb free he target cb_eq hid stkfree free_eq =>
    obtain ⟨rfl, hv⟩ := Prod.mk.inj hr
    obtain rfl : id = cb.id := Int.ofNat.inj (Option.some.inj hv)
    obtain ⟨hi, hdead⟩ := ((ids.free t).2 i).mp (free ▸ List.mem_cons_self)
    have hidof : IdOf cfg t i cb.id := hid ▸ IdOf.newId fits hi target
    have hindex : INDEX t cb.id = i := hidof.index fits
    exact ⟨⟨cb, rfl, hindex.symm ▸ cb_eq⟩, hidof.ne_zero, hindex.symm ▸ hdead⟩

theorem create_cases (ids : IdInv cfg o.names.dom) (fits : cfg.Fits) (t : ObjType) (p : NewObj)
    (reqs : List HeapRequest) (init : ID → Kern → Kern) :
    CreatedAll cfg o t init (o.create cfg t p reqs init) := by
  unfold ObjectState.create
  split_ifs
  · exact .failed _
  · exact .failed _
  · exact .failed _
  · exact .failed _
  have halloc := allocAreas_cases reqs [] o.heap
  rw [List.reverse_nil, List.nil_append] at halloc
  rcases halloc with halloc | ⟨areas, halloc⟩
  · rw [halloc]
    exact .failed _
  rw [halloc]
  dsimp only
  have hnames := created_names checkOname_neg (@creObj_created cfg o.names.dom t p.c p.domid p.atr
    (o.names.checkOname cfg t p.domid p.atr p.oname)) p.atr p.oname
  rw [← NameState.creObj] at hnames
  rcases hnames with h | ⟨v, hv, h⟩ | ⟨id, hr, hcreated⟩
  · rw [h]
    exact .hangs _
  · rw [h]
    dsimp only
    rw [if_pos hv, freeAreas_append (List.reverse_perm areas)]
    exact .failed v
  · rw [hr]
    dsimp only
    rw [if_neg (not_lt.mpr (Int.natCast_nonneg _))]
    exact .made hcreated (ids.made fits hcreated) rfl

theorem tkCreDom_cases (ids : IdInv cfg o.names.dom) (fits : cfg.Fits) (p : NewObj) :
    CreatedAll cfg o .dom (fun _ k => k) (o.tkCreDom cfg p) := by
  unfold ObjectState.tkCreDom
  split_ifs
  · exact .failed _
  dsimp only
  have hnames := created_names checkOname_neg (@tkCreDom_created cfg o.names.dom p.domid p.atr
    (o.names.checkOname cfg .dom p.domid p.atr p.oname)) p.atr p.oname
  change (o.names.tkCreDom cfg p.domid p.atr p.oname = _) ∨ _ at hnames
  rcases hnames with h | ⟨v, -, h⟩ | ⟨id, hr, hcreated⟩
  · rw [h]
    exact .hangs _
  · change o.names.tkCreDom cfg p.domid p.atr p.oname = _ at h
    rw [h]
    exact .failed v
  · change (o.names.tkCreDom cfg p.domid p.atr p.oname).2 = _ at hr
    change Created cfg _ .dom p.domid E_OK ((o.names.tkCreDom cfg p.domid p.atr p.oname).1.dom, _)
      at hcreated
    rw [hr]
    exact .made hcreated (ids.made fits hcreated) rfl

/-- The queues of a new object are made, and no others. -/
structure NewWaits (t : ObjType) (id : ID) (s s' : Kern) : Prop where
  link : LinkInv True (none, s) → (∀ k, t.objKind = some k → s.objatr (k, id) = none) →
    LinkInv True (none, s')
  objatr : ∀ k j, s'.objatr (k, j) ≠ none → s.objatr (k, j) ≠ none ∨ t.objKind = some k ∧ j = id

theorem NewWaits.same (t : ObjType) (id : ID) (s : Kern) : NewWaits t id s s :=
  ⟨fun h _ => h, fun _ _ h => Or.inl h⟩

theorem register_objatr {k k' : ObjKind} {j : ID} {atr : ℕ}
    (h : (s.register k id atr).objatr (k', j) ≠ none) :
    s.objatr (k', j) ≠ none ∨ k' = k ∧ j = id := by
  by_cases hkj : (k', j) = (k, id)
  · exact Or.inr (Prod.mk.inj hkj)
  · left
    change Function.update s.objatr (k, id) (some atr) (k', j) ≠ none at h
    rwa [Function.update_of_ne hkj] at h

theorem NewWaits.newObj (t : ObjType) (id : ID) (atr : ℕ) (s : Kern) :
    NewWaits t id s (s.newObj t id atr) := by
  unfold Kern.newObj
  cases hk : t.objKind with
  | none => exact .same t id s
  | some k =>
    refine ⟨fun link hfree => link.register atr (hfree k hk), fun k' j h => ?_⟩
    rcases register_objatr h with h | ⟨rfl, rfl⟩
    · exact Or.inl h
    · exact Or.inr ⟨hk, rfl⟩

theorem NewWaits.newMtx (id : ID) (atr ceilpri : ℕ) (s : Kern) :
    NewWaits .mtx id s (s.newMtx id atr ceilpri) := by
  refine ⟨fun link hfree => ?_, fun k' j h => ?_⟩
  · have hreg := @LinkInv.register True s link .mtx id atr (hfree .mtx rfl)
    exact ⟨hreg.linked, hreg.waits, hreg.nodup, hreg.registered, hreg.timed, hreg.ready⟩
  · have h : (s.register .mtx id atr).objatr (k', j) ≠ none := h
    rcases register_objatr h with h | ⟨rfl, rfl⟩
    · exact Or.inl h
    · exact Or.inr ⟨rfl, rfl⟩

/-- The new object is the only one whose wait queues are made. -/
def CreatedRight (cfg : DomCfg) (o : ObjectState) (t : ObjType) (r : ObjectState × Option ℤ) :
    Prop :=
  ∃ init : ID → Kern → Kern, (∀ id k, NewWaits t id k (init id k)) ∧ CreatedAll cfg o t init r

theorem create_waits (ids : IdInv cfg o.names.dom) (fits : cfg.Fits) (t : ObjType) (p : NewObj)
    (reqs : List HeapRequest) (atr : ℕ) :
    CreatedRight cfg o t (o.create cfg t p reqs fun id k => k.newObj t id atr) :=
  ⟨_, fun id k => .newObj t id atr k, create_cases ids fits ..⟩

theorem create_plain (ids : IdInv cfg o.names.dom) (fits : cfg.Fits) (t : ObjType) (p : NewObj)
    (reqs : List HeapRequest) : CreatedRight cfg o t (o.create cfg t p reqs fun _ k => k) :=
  ⟨_, fun id k => .same t id k, create_cases ids fits ..⟩

/-- A deletion fails and leaves the state, or returns the control block and releases the waiting
tasks, or leaves the control block of a task that still runs to the dispatcher. -/
inductive DeletedAll (s : ObjectState) (t : ObjType) (i : ℕ) :
    ObjectState × Option ℤ × List (Tsk × ER) → Prop
  | failed (r : Option ℤ) (hr : r ≠ some E_OK) : DeletedAll s t i (s, r, [])
  | gone {s' : ObjectState} {id : ID}
      (deleted : Deleted s.names.dom t i id (s'.names.dom, some E_OK)) (h : Hook)
      (kern : s'.kern = (s.kern.deleteObj h t (s.names.dom.cb (t, i)).id).1) :
      DeletedAll s t i (s', some E_OK, (s.kern.deleteObj h t (s.names.dom.cb (t, i)).id).2)
  | marked {s' : ObjectState} (tsk : t = .tsk)
      (marked : Marked s.names.dom i (s'.names.dom, some E_OK)) (kern : s'.kern = s.kern) :
      DeletedAll s t i (s', some E_OK, [])

/-- The names after a deletion, by what the deletion does to the control blocks. -/
theorem deleted_names {n : NameState} {r : DomState × Option ℤ} (h : Deleted n.dom t i id r) :
    (∃ v, v ≠ some E_OK ∧ n.deleted (t, i) r = (n, v)) ∨
      (n.deleted (t, i) r).2 = some E_OK ∧
      Deleted n.dom t i id ((n.deleted (t, i) r).1.dom, some E_OK) := by
  cases h with
  | failed v hv =>
    refine Or.inl ⟨v, hv, ?_⟩
    unfold NameState.deleted
    dsimp only
    rw [if_neg hv]
  | gone live part cb_eq free_eq =>
    refine Or.inr ⟨rfl, ?_⟩
    rw [deleted_dom]
    exact .gone live part cb_eq free_eq

theorem delete_cases (cfg : DomCfg) (o : ObjectState) (t : ObjType) (c : Caller) (h : Hook)
    (id : ID) :
    DeletedAll o t (INDEX t id) (o.delete cfg t c h id) := by
  unfold ObjectState.delete
  have hnames := deleted_names (@delObj_deleted cfg o.names.dom t c id)
  rw [← NameState.delObj] at hnames
  rcases hnames with ⟨v, hv, hn⟩ | ⟨hr, hdeleted⟩
  · rw [hn]
    dsimp only
    rw [if_neg hv]
    exact .failed v hv
  · dsimp only
    rw [hr, if_pos rfl]
    exact .gone hdeleted h rfl

theorem deleteIn_cases (cfg : DomCfg) (o : ObjectState) (t : ObjType) (refused : Bool) (c : Caller)
    (h : Hook) (id : ID) :
    DeletedAll o t (INDEX t id) (o.deleteIn cfg t refused c h id) := by
  unfold ObjectState.deleteIn
  split_ifs with hctx
  · exact .failed _ (by decide)
  · exact delete_cases cfg o t c h id

theorem DeletedAll.plain (ht : t.objKind = none) {o' : ObjectState} {id : ID}
    (deleted : Deleted o.names.dom t i id (o'.names.dom, some E_OK)) (kern : o'.kern = o.kern) :
    DeletedAll o t i (o', some E_OK, []) := by
  have hsame := deleteObj_none o.kern ⟨0, 0⟩ ht (o.names.dom.cb (t, i)).id
  have h := DeletedAll.gone deleted ⟨0, 0⟩ (kern.trans (by rw [hsame]))
  rwa [hsame] at h

theorem deleteDom_cases {r : DomState × ER} {domid : ID}
    (h : Deleted o.names.dom .dom i domid (r.1, some r.2)) :
    DeletedAll o .dom i
      ({ o with names := (o.names.deleted (.dom, i) (r.1, some r.2)).1 }, some r.2, []) := by
  rcases deleted_names h with ⟨v, hv, hn⟩ | ⟨hr, hdeleted⟩
  · rw [hn]
    obtain rfl : some r.2 = v := congrArg Prod.snd hn
    exact .failed _ hv
  · obtain hr : some r.2 = some E_OK := hr
    rw [hr] at hdeleted ⊢
    exact .plain rfl hdeleted rfl

theorem tkDelTsk_all (cfg : DomCfg) (o : ObjectState) (c : Caller) (id : ID)
    (dormant running : Bool) :
    DeletedAll o .tsk (INDEX .tsk id) (o.tkDelTsk cfg c id dormant running) := by
  have hcases := tkDelTsk_cases cfg o.names.dom c id dormant running
  unfold ObjectState.tkDelTsk NameState.tkDelTsk
  cases running with
  | false =>
    rcases deleted_names (hcases.1 rfl) with ⟨v, hv, hn⟩ | ⟨hr, hdeleted⟩
    · dsimp only
      rw [if_neg Bool.false_ne_true, hn]
      dsimp only
      rw [if_neg fun h => hv h.1]
      exact .failed v hv
    · dsimp only
      rw [if_neg Bool.false_ne_true, hr, if_pos ⟨rfl, rfl⟩]
      exact .plain rfl hdeleted rfl
  | true =>
    have hmarked := hcases.2 rfl
    dsimp only
    rw [if_pos rfl]
    dsimp only
    rw [if_neg fun h => Bool.false_ne_true h.2]
    generalize SmpTKernel.tkDelTsk cfg o.names.dom c id dormant true = r at hmarked
    cases hmarked with
    | failed v hv => exact .failed v hv
    | marked live => exact .marked rfl (.marked live) rfl

end SmpTKernel
