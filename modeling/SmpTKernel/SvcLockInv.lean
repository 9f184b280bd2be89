import SmpTKernel.SvcLock
import SmpTKernel.Lib.Fuel
import SmpTKernel.Lib.Stacks

/-!
# Who holds which lock

The lists of held locks are stacks without a common lock, a lock is marked locked while it is in one
of them, and the queues of the locks share no task. Every routine of `klock.c` keeps this; what it
does to the stacks is said by one lemma each.
-/

namespace SmpTKernel

open LinkedStack Fuel

/-- The task can hold locks: it is neither dormant nor gone. -/
def TaskState.Alive (s : TaskState) : Prop := s ≠ .nonexist ∧ s ≠ .dormant

/-- The locks each task holds are `held`, latest first. -/
structure SvcInv (s : SvcState) (held : Tsk → List Lock) : Prop where
  lists : Stacks s.locklist s.svclocked held
  marked : ∀ l, s.wtskq l ≠ none ↔ ∃ t, l ∈ held t
  alive : ∀ t l, l ∈ held t → (s.state t).Alive
  waits : ∀ l queue t, s.wtskq l = some queue → t ∈ queue →
    s.klockwait t = true ∧ s.state t = .ready
  nodup : ∀ l queue, s.wtskq l = some queue → queue.Nodup
  one : ∀ l l' queue queue' t, s.wtskq l = some queue → s.wtskq l' = some queue' →
    t ∈ queue → t ∈ queue' → l = l'

/-- The task waits for no lock. -/
def SvcState.NotWaiting (s : SvcState) (t : Tsk) : Prop :=
  ∀ l queue, s.wtskq l = some queue → t ∉ queue

variable {s s' : SvcState} {held : Tsk → List Lock} {t u : Tsk} {l loc : Lock} {prid : ℕ}
  {queue rest : List Tsk}

theorem SvcInv.svclocked_eq (inv : SvcInv s held) (t : Tsk) : s.svclocked t = (held t).head? :=
  inv.lists.top_eq t

theorem SvcInv.queue_of_mem (inv : SvcInv s held) (h : l ∈ held t) :
    ∃ queue, s.wtskq l = some queue :=
  Option.ne_none_iff_exists'.mp ((inv.marked l).mpr ⟨t, h⟩)

theorem svcInv_taskInitialize (locklist : Lock → Option Lock) :
    SvcInv (SvcState.taskInitialize locklist) fun _ => [] where
  lists := stacks_nil locklist
  marked _ := ⟨fun h => absurd rfl h, fun ⟨_, h⟩ => absurd h List.not_mem_nil⟩
  alive _ _ h := absurd h List.not_mem_nil
  waits _ _ _ h := absurd h.symm (Option.some_ne_none _)
  nodup _ _ h := absurd h.symm (Option.some_ne_none _)
  one _ _ _ _ _ h := absurd h.symm (Option.some_ne_none _)

/-! ## Tasks -/

/-- A task that waits for no lock changes its state; it stays alive if it holds a lock. -/
theorem SvcInv.setState (inv : SvcInv s held) (hw : s.NotWaiting t) {state : TaskState}
    (hheld : held t = [] ∨ state.Alive) (klockwait : Bool) (ctxtsk : ℕ → Option Tsk) :
    SvcInv { s with
      ctxtsk := ctxtsk
      state := Function.update s.state t state
      klockwait := Function.update s.klockwait t klockwait } held := by
  refine ⟨inv.lists, inv.marked, fun u l hl => ?_, fun l queue u hq hu => ?_, inv.nodup, inv.one⟩
  · dsimp only
    by_cases h : u = t
    · subst h
      rw [Function.update_self]
      rcases hheld with hh | hh
      · rw [hh] at hl
        exact absurd hl List.not_mem_nil
      · exact hh
    · rw [Function.update_of_ne h]
      exact inv.alive u l hl
  · have h : u ≠ t := fun h => hw l queue hq (h ▸ hu)
    dsimp only
    rw [Function.update_of_ne h, Function.update_of_ne h]
    exact inv.waits l queue u hq hu

theorem SvcInv.setCtxtsk (inv : SvcInv s held) (ctxtsk : ℕ → Option Tsk) :
    SvcInv { s with ctxtsk := ctxtsk } held :=
  ⟨inv.lists, inv.marked, inv.alive, inv.waits, inv.nodup, inv.one⟩

theorem leaveLockQueue_frame (s : SvcState) (t : Tsk) :
    (s.leaveLockQueue t).ctxtsk = s.ctxtsk ∧ (s.leaveLockQueue t).state = s.state ∧
      (s.leaveLockQueue t).svclocked = s.svclocked ∧
      (s.leaveLockQueue t).locklist = s.locklist := by
  unfold SvcState.leaveLockQueue
  split_ifs <;> exact ⟨rfl, rfl, rfl, rfl⟩

theorem SvcInv.leaveLockQueue (inv : SvcInv s held) (t : Tsk) :
    SvcInv (s.leaveLockQueue t) held ∧ (s.leaveLockQueue t).NotWaiting t := by
  unfold SvcState.leaveLockQueue
  split_ifs with hk
  · have hsome {l : Lock} {queue' : List Tsk} (h : (s.wtskq l).map (fun queue => queue.erase t) =
      some queue') :
        ∃ queue, s.wtskq l = some queue ∧ queue' = queue.erase t := by
      obtain ⟨queue, hq, he⟩ := Option.map_eq_some_iff.mp h
      exact ⟨queue, hq, he.symm⟩
    refine ⟨⟨inv.lists, fun l => ?_, inv.alive, fun l queue' u hq hu => ?_, fun l queue' hq => ?_,
      fun l l' q q' u hq hq' hu hu' => ?_⟩, fun l queue' hq => ?_⟩
    · show (s.wtskq l).map _ ≠ none ↔ _
      rw [ne_eq, Option.map_eq_none_iff]
      exact inv.marked l
    · obtain ⟨queue, hq₀, rfl⟩ := hsome hq
      have hne : u ≠ t := ((inv.nodup l queue hq₀).mem_erase_iff.mp hu).1
      show Function.update s.klockwait t false u = true ∧ _
      rw [Function.update_of_ne hne]
      exact inv.waits l queue u hq₀ (List.mem_of_mem_erase hu)
    · obtain ⟨queue, hq₀, rfl⟩ := hsome hq
      exact (inv.nodup l queue hq₀).erase t
    · obtain ⟨queue, hq₀, rfl⟩ := hsome hq
      obtain ⟨queue', hq₁, rfl⟩ := hsome hq'
      exact inv.one l l' _ _ u hq₀ hq₁ (List.mem_of_mem_erase hu) (List.mem_of_mem_erase hu')
    · obtain ⟨queue, hq₀, rfl⟩ := hsome hq
      exact fun h => ((inv.nodup l queue hq₀).mem_erase_iff.mp h).1 rfl
  · refine ⟨inv, fun l queue hq hu => ?_⟩
    exact hk (inv.waits l queue t hq hu).1

/-! ## `LockSVC` -/

/-- The lock is free, and the caller takes it. -/
theorem SvcInv.take (inv : SvcInv s held) (hfree : s.wtskq loc = none) (ht : (s.state t).Alive) :
    SvcInv (s.takeLock t loc) (Function.update held t (loc :: held t)) := by
  have hout (u : Tsk) : loc ∉ held u := fun h => (inv.marked loc).mpr ⟨u, h⟩ hfree
  have hold {l : Lock} {queue : List Tsk} {u : Tsk} (hq : Function.update s.wtskq loc (some []) l =
    some queue)
      (hu : u ∈ queue) : s.wtskq l = some queue := by
    by_cases h : l = loc
    · subst h
      rw [Function.update_self] at hq
      rw [← Option.some.inj hq] at hu
      exact absurd hu List.not_mem_nil
    · rwa [Function.update_of_ne h] at hq
  refine ⟨inv.lists.push hout t, fun l => ?_, fun u l hl => ?_, fun l queue u hq hu => ?_,
    fun l queue hq => ?_, fun l l' q q' u hq hq' hu hu' => ?_⟩
  · show Function.update s.wtskq loc (some []) l ≠ none ↔ _
    by_cases h : l = loc
    · subst h
      rw [Function.update_self]
      refine iff_of_true (Option.some_ne_none _) ⟨t, ?_⟩
      rw [Function.update_self]
      exact List.mem_cons_self
    · rw [Function.update_of_ne h, inv.marked l]
      refine exists_congr fun u => ?_
      rw [mem_update_push]
      exact (or_iff_right fun h' => h h'.2).symm
  · rcases mem_update_push.mp hl with ⟨rfl, -⟩ | hl
    · exact ht
    · exact inv.alive u l hl
  · exact inv.waits l queue u (hold hq hu) hu
  · by_cases h : queue = []
    · rw [h]
      exact List.nodup_nil
    · obtain ⟨u, hu⟩ := List.exists_mem_of_ne_nil queue h
      exact inv.nodup l queue (hold hq hu)
  · exact inv.one l l' q q' u (hold hq hu) (hold hq' hu') hu hu'

/-- A task joins a queue. -/
theorem SvcInv.join (inv : SvcInv s held) (hw : s.NotWaiting t) (ht : s.state t = .ready) :
    SvcInv { s with
      klockwait := Function.update s.klockwait t true
      wtskq :=
        Function.update s.wtskq loc ((s.wtskq loc).map fun queue => queue ++ [t]) } held := by
  have hsplit {l : Lock} {queue : List Tsk}
      (hq : Function.update s.wtskq loc ((s.wtskq loc).map fun queue => queue ++ [t]) l =
        some queue) :
      ∃ q, s.wtskq l = some q ∧ (queue = q ∨ l = loc ∧ queue = q ++ [t]) := by
    by_cases h : l = loc
    · subst h
      rw [Function.update_self] at hq
      obtain ⟨q, hq₀, he⟩ := Option.map_eq_some_iff.mp hq
      exact ⟨q, hq₀, Or.inr ⟨rfl, he.symm⟩⟩
    · rw [Function.update_of_ne h] at hq
      exact ⟨queue, hq, Or.inl rfl⟩
  have hmem {l : Lock} {queue : List Tsk} {u : Tsk}
      (hq : Function.update s.wtskq loc ((s.wtskq loc).map fun queue => queue ++ [t]) l =
        some queue)
      (hu : u ∈ queue) : (∃ q, s.wtskq l = some q ∧ u ∈ q) ∨ u = t ∧ l = loc := by
    obtain ⟨q, hq₀, rfl | ⟨hl, rfl⟩⟩ := hsplit hq
    · exact Or.inl ⟨_, hq₀, hu⟩
    · rcases List.mem_append.mp hu with hu | hu
      · exact Or.inl ⟨q, hq₀, hu⟩
      · exact Or.inr ⟨List.mem_singleton.mp hu, hl⟩
  refine ⟨inv.lists, fun l => ?_, inv.alive, fun l queue u hq hu => ?_, fun l queue hq => ?_,
    fun l l' q q' u hq hq' hu hu' => ?_⟩
  · dsimp only
    rw [← inv.marked l]
    by_cases h : l = loc
    · subst h
      rw [Function.update_self, ne_eq, Option.map_eq_none_iff]
    · rw [Function.update_of_ne h]
  · show Function.update s.klockwait t true u = true ∧ _
    rcases hmem hq hu with ⟨q, hq, hu⟩ | ⟨rfl, -⟩
    · have hne : u ≠ t := fun h => hw l q hq (h ▸ hu)
      rw [Function.update_of_ne hne]
      exact inv.waits l q u hq hu
    · rw [Function.update_self]
      exact ⟨rfl, ht⟩
  · obtain ⟨q, hq₀, rfl | ⟨-, rfl⟩⟩ := hsplit hq
    · exact inv.nodup l _ hq₀
    · rw [← List.concat_eq_append]
      exact (inv.nodup l q hq₀).concat (hw l q hq₀)
  · rcases hmem hq hu with ⟨q, hq₀, hu₀⟩ | ⟨hut, hl⟩ <;> rcases hmem hq' hu' with
      ⟨q', hq₁, hu₁⟩ | ⟨hut', hl'⟩
    · exact inv.one l l' q q' u hq₀ hq₁ hu₀ hu₁
    · exact absurd (hut' ▸ hu₀) (hw l q hq₀)
    · exact absurd (hut ▸ hu₁) (hw l' q' hq₁)
    · rw [hl, hl']

theorem SvcInv.waitLock (inv : SvcInv s held) (ht : s.state t = .ready) (loc : Lock) :
    SvcInv (s.waitLock t loc) held := by
  obtain ⟨hinv, hnot⟩ := inv.leaveLockQueue t
  exact hinv.join hnot ((congrFun (leaveLockQueue_frame s t).2.1 t).trans ht)

/-- What a turn of `LockSVC` comes to. -/
inductive LockOutcome (s : SvcState) (held : Tsk → List Lock) (t : Tsk) (loc : Lock) :
    Bool → SvcState → (Tsk → List Lock) → Prop
  | had (h : (held t).head? = some loc) : LockOutcome s held t loc true s held
  | taken (h : s.wtskq loc = none) :
    LockOutcome s held t loc true (s.takeLock t loc) (Function.update held t (loc :: held t))
  | waits (h : (held t).head? ≠ some loc) (h' : s.wtskq loc ≠ none) :
    LockOutcome s held t loc false (s.waitLock t loc) held

theorem SvcInv.lockSvc (inv : SvcInv s held) (hc : s.ctxtsk prid = some t) (ht : s.state t = .ready)
    (loc : Lock) :
    ∃ b s' held', s.lockSvc prid loc = some (b, s') ∧ LockOutcome s held t loc b s' held' ∧
      SvcInv s' held' := by
  have halive : (s.state t).Alive := by
    rw [ht]
    exact ⟨by decide, by decide⟩
  unfold SvcState.lockSvc
  rw [hc, Option.map_some, inv.svclocked_eq]
  split_ifs with hhad hfree
  · exact ⟨true, s, held, rfl, .had hhad, inv⟩
  · exact ⟨true, _, _, rfl, .taken hfree, inv.take hfree halive⟩
  · exact ⟨false, _, held, rfl, .waits hhad hfree, inv.waitLock ht loc⟩

/-! ## Release -/

/-- What a release makes of the stacks: the lock leaves the stack of `t` and goes onto the stack of
its first waiter. -/
def afterRelease (held : Tsk → List Lock) (t : Tsk) (loc : Lock) (ls : List Lock) : Option Tsk →
    Tsk → List Lock
  | none => Function.update held t ls
  | some u => Function.update (Function.update held t ls) u (loc :: Function.update held t ls u)

/-- The queue of a lock after the release. -/
def queueAfter : List Tsk → Option (List Tsk)
  | [] => none
  | _ :: queue => some queue

section Release

variable {ls : List Lock} {first : Option Tsk}

theorem mem_pop (h : Stacks s.locklist s.svclocked held) (hheld : held t = loc :: ls) :
    l ∈ Function.update held t ls u ↔ l ≠ loc ∧ l ∈ held u := by
  have hnd := h.nodup t
  rw [hheld] at hnd
  by_cases hu : u = t
  · subst hu
    rw [Function.update_self, hheld]
    constructor
    · intro hl
      exact ⟨fun e => (List.nodup_cons.mp hnd).1 (e ▸ hl), List.mem_cons_of_mem _ hl⟩
    · rintro ⟨hne, hl⟩
      exact (List.mem_cons.mp hl).resolve_left hne
  · rw [Function.update_of_ne hu]
    refine (and_iff_right_of_imp fun hl e => hu ?_).symm
    exact h.disj u t loc (e ▸ hl) (hheld ▸ List.mem_cons_self)

/-- Afterwards the first waiter holds the lock, and nothing else has changed. -/
theorem mem_afterRelease (h : Stacks s.locklist s.svclocked held) (hheld : held t = loc :: ls) :
    l ∈ afterRelease held t loc ls first u ↔ l = loc ∧ first = some u ∨ l ≠ loc ∧ l ∈ held u := by
  cases first with
  | none =>
    rw [afterRelease, mem_pop h hheld]
    exact (or_iff_right fun h => Option.some_ne_none u h.2.symm).symm
  | some v =>
    rw [afterRelease, mem_update_push, mem_pop h hheld, Option.some_inj, and_comm (a := u = v),
      eq_comm (a := u)]

theorem afterRelease_first (h : first = some t) :
    afterRelease held t loc ls first t = loc :: ls := by
  subst h
  rw [afterRelease, Function.update_self, Function.update_self]

theorem afterRelease_self (h : first ≠ some t) : afterRelease held t loc ls first t = ls := by
  cases first with
  | none => exact Function.update_self ..
  | some u => rw [afterRelease, Function.update_of_ne fun e =>
      h (congrArg some e.symm), Function.update_self]

theorem afterRelease_gets (h : first = some u) (hu : u ≠ t) :
    afterRelease held t loc ls first u = loc :: held u := by
  subst h
  rw [afterRelease, Function.update_self, Function.update_of_ne hu]

theorem afterRelease_other (h : first ≠ some u) (hu : u ≠ t) :
    afterRelease held t loc ls first u = held u := by
  cases first with
  | none => exact Function.update_of_ne hu _ _
  | some v => rw [afterRelease, Function.update_of_ne fun e =>
      h (congrArg some e.symm), Function.update_of_ne hu]

/-- The queues afterwards are parts of what they were, and the first waiter is in none. -/
theorem SvcInv.served (inv : SvcInv s held) (h : s.wtskq loc = some queue) {l : Lock}
    {queue' : List Tsk} (hq : Function.update s.wtskq loc (queueAfter queue) l = some queue') :
    (∀ u, queue.head? = some u → u ∉ queue') ∧ ∃ q, s.wtskq l = some q ∧ queue'.Sublist q := by
  by_cases hl : l = loc
  · subst hl
    rw [Function.update_self] at hq
    cases queue with
    | nil => exact absurd hq (Option.some_ne_none _).symm
    | cons v rest =>
      obtain rfl := Option.some.inj hq
      refine ⟨fun u hu => ?_, _, h, List.sublist_cons_self v rest⟩
      rw [← Option.some.inj hu]
      exact (List.nodup_cons.mp (inv.nodup l _ h)).1
  · rw [Function.update_of_ne hl] at hq
    refine ⟨fun u hu hmem => hl ?_, queue', hq, List.Sublist.refl queue'⟩
    exact inv.one l loc queue' queue u hq h hmem (List.mem_of_mem_head? hu)

theorem SvcInv.of_release (inv : SvcInv s held) (hheld : held t = loc :: ls)
    (hq : s.wtskq loc = some queue)
    (hlists : Stacks s'.locklist s'.svclocked (afterRelease held t loc ls queue.head?))
    (hstate : s'.state = s.state) (hk : ∀ v, queue.head? ≠ some v → s'.klockwait v = s.klockwait v)
    (hw : s'.wtskq = Function.update s.wtskq loc (queueAfter queue)) :
    SvcInv s' (afterRelease held t loc ls queue.head?) := by
  refine ⟨hlists, fun l => ?_, fun u l hl => ?_, fun l queue' u hq' hu => ?_,
    fun l queue' hq' => ?_, fun l l' q q' u hq₁ hq₂ hu hu' => ?_⟩
  · have hiff (u : Tsk) := @mem_afterRelease s held t u l loc ls queue.head? inv.lists hheld
    rw [hw, exists_congr hiff]
    by_cases h : l = loc
    · subst h
      rw [Function.update_self]
      cases queue with
      | nil => exact iff_of_false (fun h => h rfl) fun ⟨u, hu⟩ =>
        hu.elim (fun h => nomatch h.2) fun h => h.1 rfl
      | cons v rest => exact iff_of_true (Option.some_ne_none _) ⟨v, Or.inl ⟨rfl, rfl⟩⟩
    · rw [Function.update_of_ne h, inv.marked l]
      exact exists_congr fun u => ((or_iff_right fun h' => h h'.1).trans (and_iff_right h)).symm
  · rw [hstate]
    rcases (mem_afterRelease inv.lists hheld).mp hl with ⟨-, hu⟩ | ⟨-, hl⟩
    · rw [(inv.waits loc queue u hq (List.mem_of_mem_head? hu)).2]
      exact ⟨by decide, by decide⟩
    · exact inv.alive u l hl
  · rw [hw] at hq'
    obtain ⟨hfirst, q, hq, hsub⟩ := inv.served hq hq'
    rw [hk u fun h => hfirst u h hu, hstate]
    exact inv.waits l q u hq (hsub.subset hu)
  · rw [hw] at hq'
    obtain ⟨-, q, hq, hsub⟩ := inv.served hq hq'
    exact (inv.nodup l q hq).sublist hsub
  · rw [hw] at hq₁ hq₂
    obtain ⟨-, q₁, h₁, hsub₁⟩ := inv.served hq hq₁
    obtain ⟨-, q₂, h₂, hsub₂⟩ := inv.served hq hq₂
    exact inv.one l l' q₁ q₂ u h₁ h₂ (hsub₁.subset hu) (hsub₂.subset hu')

/-- **Release.** The caller's latest lock is freed, or passed on to its first waiter. -/
theorem SvcInv.release (inv : SvcInv s held) (hheld : held t = loc :: ls)
    (hq : s.wtskq loc = some queue) :
    ∃ s', s.releaseLock t loc = some s' ∧ SvcInv s' (afterRelease held t loc ls queue.head?) ∧
      s'.ctxtsk = s.ctxtsk ∧ s'.state = s.state ∧
      s'.wtskq = Function.update s.wtskq loc (queueAfter queue) := by
  have hpop := inv.lists.pop hheld
  have hout := inv.lists.not_mem_of_pop hheld
  unfold SvcState.releaseLock SvcState.passLock
  dsimp only
  rw [hq]
  cases queue with
  | nil => exact ⟨_, rfl, inv.of_release hheld hq hpop rfl (fun _ _ => rfl) rfl, rfl, rfl, rfl⟩
  | cons v rest =>
    refine ⟨_, rfl, inv.of_release hheld hq (hpop.push hout v) rfl (fun u hu => ?_) rfl,
      rfl, rfl, rfl⟩
    exact Function.update_of_ne (fun h => hu (congrArg some h.symm)) _ _

end Release

/-! ## `AllUnlockSVC` -/

/-- A lock that `t` held has gone to its first other waiter, or is free. -/
def PassedOn (s s' : SvcState) (t : Tsk) (l : Lock) (held' : Tsk → List Lock) : Prop :=
  ∀ queue, s.wtskq l = some queue →
    match (queue.filter fun u => u ≠ t).head? with
    | none => s'.wtskq l = none
    | some u => l ∈ held' u

/-- All locks of `t` are passed on, and the others keep what they hold. -/
structure Released (s s' : SvcState) (t : Tsk) (held held' : Tsk → List Lock) : Prop where
  inv : SvcInv s' held'
  none : held' t = []
  ctxtsk : s'.ctxtsk = s.ctxtsk
  state : s'.state = s.state
  kept : ∀ u l, u ≠ t → l ∈ held u → l ∈ held' u
  passed : ∀ l ∈ held t, PassedOn s s' t l held'
  same : ∀ l, l ∉ held t → s'.wtskq l = s.wtskq l

/-- The turns of the loop: one for each lock, and one for each time the caller itself is next in a
queue. -/
def unlockTurns (s : SvcState) (t : Tsk) (ls : List Lock) : ℕ :=
  (ls.map fun l => 1 + ((s.wtskq l).getD []).count t).sum

theorem unlockTurns_congr {ls : List Lock} (h : ∀ l ∈ ls, s'.wtskq l = s.wtskq l) :
    unlockTurns s' t ls = unlockTurns s t ls := by
  unfold unlockTurns
  rw [List.map_congr_left fun l hl => by rw [h l hl]]

theorem allUnlockSvc_turn (hc : s.ctxtsk prid = some t) (hloc : s.svclocked t = some loc)
    (hrel : s.releaseLock t loc = some s') (fuel : ℕ) :
    SvcState.allUnlockSvc prid (fuel + 1) s = SvcState.allUnlockSvc prid fuel s' := by
  rw [SvcState.allUnlockSvc, hc, Option.bind_some, hloc]
  dsimp only
  rw [hrel, Option.bind_some]

/-- **The loop of `AllUnlockSVC`** releases the locks of the task the processor executes. -/
theorem SvcInv.allUnlock {n : ℕ} : ∀ {s : SvcState} {held : Tsk → List Lock}, SvcInv s held →
    s.ctxtsk prid = some t → unlockTurns s t (held t) = n →
    ∃ s' held', Returns (fun fuel => SvcState.allUnlockSvc prid fuel s) s' ∧
      Released s s' t held held' := by
  induction n using Nat.strong_induction_on with
  | _ n ih =>
    intro s held inv hc hn
    cases hheld : held t with
    | nil =>
      refine ⟨s, held, (returns_const s).turn fun fuel => ?_, inv, hheld, rfl, rfl, fun _ _ _ h =>
        h, fun l hl => ?_, fun _ _ => rfl⟩
      · rw [SvcState.allUnlockSvc, hc, Option.bind_some, inv.svclocked_eq t, hheld]
        rfl
      · rw [hheld] at hl
        exact absurd hl List.not_mem_nil
    | cons loc ls =>
      obtain ⟨queue, hq⟩ := inv.queue_of_mem (t := t) (l := loc) (hheld ▸ List.mem_cons_self)
      obtain ⟨s₁, hrel, inv₁, hc₁, hstate₁, hw₁⟩ := inv.release hheld hq
      have hloc : s.svclocked t = some loc := by rw [inv.svclocked_eq, hheld, List.head?_cons]
      have hmem {u : Tsk} {l : Lock} :=
        @mem_afterRelease s held t u l loc ls queue.head? inv.lists hheld
      have hother (l : Lock) (hl : l ≠ loc) : s₁.wtskq l = s.wtskq l := by
        rw [hw₁, Function.update_of_ne hl]
      have hself : s₁.wtskq loc = queueAfter queue := by rw [hw₁, Function.update_self]
      have hnd := inv.lists.nodup t
      rw [hheld] at hnd
      have hls : ∀ l ∈ ls, s₁.wtskq l = s.wtskq l :=
        fun l hl => hother l (ne_of_mem_of_not_mem hl (List.nodup_cons.mp hnd).1)
      have hlt : unlockTurns s₁ t (afterRelease held t loc ls queue.head? t) < n := by
        rw [← hn, hheld]
        by_cases hfirst : queue.head? = some t
        · rw [afterRelease_first hfirst]
          obtain ⟨rest, rfl⟩ : ∃ rest, queue = t :: rest := by
            cases queue with
            | nil => exact nomatch hfirst
            | cons u rest => exact ⟨rest, by rw [Option.some.inj hfirst]⟩
          show 1 + ((s₁.wtskq loc).getD []).count t + unlockTurns s₁ t ls <
            1 + ((s.wtskq loc).getD []).count t + unlockTurns s t ls
          rw [unlockTurns_congr hls, hself, hq]
          show 1 + rest.count t + _ < 1 + (t :: rest).count t + _
          rw [List.count_cons_self]
          omega
        · rw [afterRelease_self hfirst, unlockTurns_congr hls]
          show unlockTurns s t ls < 1 + _ + unlockTurns s t ls
          omega
      obtain ⟨s', held', hret, hr⟩ := ih _ hlt inv₁ (hc₁ ▸ hc) rfl
      refine ⟨s', held', hret.turn fun fuel => allUnlockSvc_turn hc hloc hrel fuel, hr.inv, hr.none,
        hr.ctxtsk.trans hc₁, hr.state.trans hstate₁, fun u l hu hl => ?_, fun l hl queue' hq' => ?_,
        fun l hl => ?_⟩
      · apply hr.kept u l hu
        rw [hmem]
        refine Or.inr ⟨fun h => hu ?_, hl⟩
        exact inv.lists.disj u t loc (h ▸ hl) (hheld ▸ List.mem_cons_self)
      · by_cases h : l = loc
        · subst h
          obtain rfl : queue' = queue := Option.some.inj (hq'.symm.trans hq)
          cases queue' with
          | nil =>
            show s'.wtskq l = none
            rw [hr.same l, hself]
            · rfl
            · rw [hmem]
              exact fun h => h.elim (fun h => nomatch h.2) fun h => h.1 rfl
          | cons u rest =>
            by_cases hu : u = t
            · subst hu
              rw [List.filter_cons_of_neg (by simp)]
              apply hr.passed l _ rest hself
              rw [hmem]
              exact Or.inl ⟨rfl, rfl⟩
            · rw [List.filter_cons_of_pos (by simpa using hu), List.head?_cons]
              apply hr.kept u l hu
              rw [hmem]
              exact Or.inl ⟨rfl, rfl⟩
        · have hlt : l ∈ afterRelease held t loc ls queue.head? t := by
            rw [hmem]
            exact Or.inr ⟨h, hheld ▸ hl⟩
          exact hr.passed l hlt queue' ((hother l h).trans hq')
      · have hne : l ≠ loc := fun h => hl (h ▸ hheld ▸ List.mem_cons_self)
        rw [hr.same l, hother l hne]
        rw [hmem]
        exact fun h => h.elim (fun h => hne h.1) fun h => hl h.2

end SmpTKernel
