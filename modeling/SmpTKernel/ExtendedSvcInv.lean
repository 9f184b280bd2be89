import SmpTKernel.ExtendedSvc
import SmpTKernel.SvcLockRuns

/-!
# The brackets of extended SVCs

`svc_ientry` and `_tk_ras_tex` bracket what they do by `LockSVC` and `UnlockSVC`. While no task
locks what it has locked already, the locks on the list of a task are those of its open brackets,
innermost first, and at most one lock more, which it has just been given and will find at the next
turn of `LockSVC`.
-/

namespace SmpTKernel

open LinkedStack

namespace Frame

/-- The lock of the call. -/
def lock (t : Tsk) : Frame → Option Lock
  | svcLock _ | svcTest _ | svcRefuse | svcBegin _ | svcUnlock _ | svcHandler _
  | svcRelock _ _ | svcEnd _ _
  | svcUnlockEnd _ => some t
  | rasLock tcb _ | rasRaise tcb _ | rasUnlock tcb _ _ => some tcb
  | selfBreak _ | brkCall _ | brkFn _ | ret _ => none

/-- The call is at `LockSVC`. -/
def locking : Frame → Bool
  | svcLock _ | svcRelock _ _ | rasLock _ _ => true
  | _ => false

/-- The call has locked and not unlocked yet. -/
def inside : Frame → Bool
  | svcTest _ | svcRefuse | svcBegin _ | svcUnlock _ | svcEnd _ _ | svcUnlockEnd _ | rasRaise _ _
  | rasUnlock _ _ _ => true
  | _ => false

/-- The call is at `UnlockSVC`. -/
def unlocking : Frame → Bool
  | svcRefuse | svcUnlock _ | svcUnlockEnd _ | rasUnlock _ _ _ => true
  | _ => false

/-- User code runs. -/
def user : Frame → Bool
  | svcHandler _ | brkFn _ => true
  | _ => false

theorem inside_of_unlocking {f : Frame} (h : f.unlocking = true) : f.inside = true := by
  cases f <;> first | rfl | exact nomatch h

theorem not_locking_of_inside {f : Frame} (h : f.inside = true) : f.locking = false := by
  cases f <;> first | rfl | exact nomatch h

theorem lock_of_inside {f : Frame} (h : f.inside = true) (t : Tsk) : ∃ l, f.lock t = some l := by
  cases f <;> first | exact ⟨_, rfl⟩ | exact nomatch h

end Frame

/-- The locks of the open brackets, innermost first. -/
def brackets (t : Tsk) (calls : List Frame) : List Lock :=
  calls.filterMap fun f => if f.inside then f.lock t else none

/-- No call locks what a call below it has locked. -/
def Nested (t : Tsk) : List Frame → Prop
  | [] => True
  | f :: rest => (∀ l, f.lock t = some l → l ∉ brackets t rest) ∧ Nested t rest

/-- The task is in `LockSVC(l)`. -/
def Wants (t : Tsk) (calls : List Frame) (l : Lock) : Prop :=
  ∃ f rest, calls = f :: rest ∧ f.locking = true ∧ f.lock t = some l

variable {t u : Tsk} {l : Lock} {f f' : Frame} {rest calls : List Frame}

theorem brackets_cons_inside (h : f.inside = true) (hl : f.lock t = some l) :
    brackets t (f :: rest) = l :: brackets t rest := by
  unfold brackets
  rw [List.filterMap_cons, if_pos h, hl]

theorem brackets_cons_outside (h : f.inside = false) :
    brackets t (f :: rest) = brackets t rest := by
  unfold brackets
  rw [List.filterMap_cons, if_neg (by rw [h]; exact Bool.false_ne_true)]

theorem Nested.cons (h : Nested t rest) (hf : ∀ l, f.lock t = some l → l ∉ brackets t rest) :
    Nested t (f :: rest) := ⟨hf, h⟩

theorem Nested.replace (h : Nested t (f :: rest)) (hl : f'.lock t = f.lock t) :
    Nested t (f' :: rest) :=
  ⟨fun l h' => h.1 l (hl ▸ h'), h.2⟩

theorem Nested.replace_none (h : Nested t (f :: rest)) (hl : f'.lock t = none) :
    Nested t (f' :: rest) :=
  ⟨fun l h' => absurd (hl.symm.trans h') (Option.some_ne_none l).symm, h.2⟩

theorem Wants.unique {l' : Lock} (h : Wants t calls l) (h' : Wants t calls l') : l = l' := by
  obtain ⟨f, rest, rfl, -, hl⟩ := h
  obtain ⟨f', rest', he, -, hl'⟩ := h'
  obtain ⟨rfl, -⟩ := List.cons.inj he
  exact Option.some.inj (hl.symm.trans hl')

theorem wants_cons (h : f.locking = true) (hl : f.lock t = some l) : Wants t (f :: rest) l :=
  ⟨f, rest, rfl, h, hl⟩

theorem not_wants_cons (h : f.locking = false) : ¬Wants t (f :: rest) l := by
  rintro ⟨f', rest', he, hlocking, -⟩
  obtain ⟨rfl, -⟩ := List.cons.inj he
  exact absurd (h.symm.trans hlocking) Bool.false_ne_true

theorem Wants.not_mem (h : Wants t calls l) (hn : Nested t calls) : l ∉ brackets t calls := by
  obtain ⟨f, rest, rfl, hlocking, hl⟩ := h
  have hout : f.inside = false := by
    rw [Bool.eq_false_iff]
    intro hin
    exact absurd ((Frame.not_locking_of_inside hin).symm.trans hlocking) Bool.false_ne_true
  rw [brackets_cons_outside hout]
  exact hn.1 l hl

/-- The locks on the lists and in the queues are those of the calls. -/
structure NestInv (s : ExtSvc) (held : Tsk → List Lock) : Prop where
  locks : SvcInv s.locks held
  nested : ∀ t, Nested t (s.calls t)
  opened : ∀ t, held t = brackets t (s.calls t) ∨
    ∃ l, Wants t (s.calls t) l ∧ held t = l :: brackets t (s.calls t)
  waits : ∀ l queue t, s.locks.wtskq l = some queue → t ∈ queue →
    Wants t (s.calls t) l ∧ held t = brackets t (s.calls t)

variable {s s' : ExtSvc} {held held' : Tsk → List Lock} {prid numProc : ℕ}

theorem nestInv_start (locklist : Lock → Option Lock) (tcb : Tsk → TexBlock) :
    NestInv (ExtSvc.start locklist tcb) fun _ => [] where
  locks := svcInv_taskInitialize locklist
  nested _ := trivial
  opened _ := Or.inl rfl
  waits _ _ _ h := absurd h.symm (Option.some_ne_none _)

/-- A task that is not in `LockSVC` holds the locks of its brackets. -/
theorem NestInv.held_eq (inv : NestInv s held) (h : ∀ l, ¬Wants t (s.calls t) l) :
    held t = brackets t (s.calls t) :=
  (inv.opened t).resolve_right fun ⟨l, hl, _⟩ => h l hl

/-! ## Steps -/

/-- The task goes on outside `LockSVC`, with the same brackets. -/
theorem NestInv.goOn (inv : NestInv s held) (hw : ∀ l, ¬Wants t (s.calls t) l)
    (hb : brackets t calls = brackets t (s.calls t)) (hn : Nested t calls)
    (tcb : Tsk → TexBlock) (breakfn : BitVec 16 → Bool) :
    NestInv ⟨s.locks, tcb, breakfn, Function.update s.calls t calls⟩ held := by
  refine ⟨inv.locks, fun u => ?_, fun u => ?_, fun l queue u hq hu => ?_⟩
  · by_cases h : u = t
    · subst h
      show Nested u (Function.update s.calls u calls u)
      rwa [Function.update_self]
    · show Nested u (Function.update s.calls t calls u)
      rw [Function.update_of_ne h]
      exact inv.nested u
  · dsimp only
    by_cases h : u = t
    · subst h
      rw [Function.update_self, hb]
      exact Or.inl (inv.held_eq hw)
    · rw [Function.update_of_ne h]
      exact inv.opened u
  · have h : u ≠ t := by
      rintro rfl
      exact hw l (inv.waits l queue u hq hu).1
    dsimp only
    rw [Function.update_of_ne h]
    exact inv.waits l queue u hq hu

theorem mem_waitLock {s : SvcState} {loc : Lock} {queue : List Tsk}
    (hq : (s.waitLock t loc).wtskq l = some queue) (hu : u ∈ queue) :
    (∃ q, s.wtskq l = some q ∧ u ∈ q) ∨ u = t ∧ l = loc := by
  have hleave {l : Lock} {queue : List Tsk} (hq : (s.leaveLockQueue t).wtskq l = some queue)
      (hu : u ∈ queue) :
      ∃ q, s.wtskq l = some q ∧ u ∈ q := by
    unfold SvcState.leaveLockQueue at hq
    split_ifs at hq
    · obtain ⟨q, hq₀, rfl⟩ := Option.map_eq_some_iff.mp hq
      exact ⟨q, hq₀, List.mem_of_mem_erase hu⟩
    · exact ⟨queue, hq, hu⟩
  change Function.update (s.leaveLockQueue t).wtskq loc _ l = some queue at hq
  by_cases h : l = loc
  · subst h
    rw [Function.update_self] at hq
    obtain ⟨q, hq₀, rfl⟩ := Option.map_eq_some_iff.mp hq
    rcases List.mem_append.mp hu with hu | hu
    · exact Or.inl (hleave hq₀ hu)
    · exact Or.inr ⟨List.mem_singleton.mp hu, rfl⟩
  · rw [Function.update_of_ne h] at hq
    exact Or.inl (hleave hq hu)

/-- Who is in a queue after a lock has been taken that was free. -/
theorem mem_takeLock {s : SvcState} {loc : Lock} {queue : List Tsk}
    (hq : (s.takeLock t loc).wtskq l = some queue) (hu : u ∈ queue) :
    l ≠ loc ∧ s.wtskq l = some queue := by
  change Function.update s.wtskq loc (some []) l = some queue at hq
  by_cases h : l = loc
  · subst h
    rw [Function.update_self] at hq
    rw [← Option.some.inj hq] at hu
    exact absurd hu List.not_mem_nil
  · rw [Function.update_of_ne h] at hq
    exact ⟨h, hq⟩

/-- **A turn of `LockSVC`.** -/
theorem NestInv.lockThen (inv : NestInv s held) (hc : s.locks.ctxtsk prid = some t)
    (hready : s.locks.state t = .ready) (hcalls : s.calls t = f :: rest)
    (hlocking : f.locking = true) (hl : f.lock t = some l) (hin : f'.inside = true)
    (hl' : f'.lock t = some l) :
    ∃ s' held', s.lockThen prid t l (f' :: rest) = some s' ∧ NestInv s' held' := by
  have hwants : Wants t (s.calls t) l := hcalls ▸ wants_cons hlocking hl
  have hout : f.inside = false := by
    rw [Bool.eq_false_iff]
    exact fun h => absurd ((Frame.not_locking_of_inside h).symm.trans hlocking) Bool.false_ne_true
  have hbr : brackets t (s.calls t) = brackets t rest := by
    rw [hcalls, brackets_cons_outside hout]
  have hnotin : l ∉ brackets t rest := hbr ▸ hwants.not_mem (inv.nested t)
  have hnested : Nested t (f' :: rest) := (hcalls ▸ inv.nested t).replace (hl'.trans hl.symm)
  obtain ⟨b, locks, held', heq, hout, hinv⟩ := inv.locks.lockSvc hc hready l
  unfold ExtSvc.lockThen
  rw [heq, Option.map_some]
  refine ⟨_, held', rfl, ?_⟩
  -- what follows for the calls of the others
  have hother {u : Tsk} (h : u ≠ t) (calls : List Frame) : Function.update s.calls t calls u =
      s.calls u :=
    Function.update_of_ne h _ _
  cases hout with
  | had hhad =>
    have hheld : held t = l :: brackets t rest := by
      rcases inv.opened t with h | ⟨l', hw, h⟩
      · rw [h, hbr] at hhad
        exact absurd (List.mem_of_mem_head? hhad) hnotin
      · rw [h, hbr, hwants.unique hw]
    refine ⟨hinv, fun u => ?_, fun u => ?_, fun l' queue u hq hu => ?_⟩ <;> dsimp only
    · by_cases h : u = t
      · subst h
        rwa [Function.update_self, if_pos rfl]
      · rw [hother h]
        exact inv.nested u
    · by_cases h : u = t
      · subst h
        rw [Function.update_self, if_pos rfl, brackets_cons_inside hin hl']
        exact Or.inl hheld
      · rw [hother h]
        exact inv.opened u
    · have h : u ≠ t := by
        rintro rfl
        have := (inv.waits l' queue u hq hu).2
        rw [hheld, hbr] at this
        exact List.cons_ne_self l _ this
      rw [hother h]
      exact inv.waits l' queue u hq hu
  | taken hfree =>
    have hheld : held t = brackets t rest := by
      rcases inv.opened t with h | ⟨l', hw, h⟩
      · rw [h, hbr]
      · exfalso
        apply (inv.locks.marked l).mpr ⟨t, ?_⟩ hfree
        rw [h, hwants.unique hw]
        exact List.mem_cons_self
    refine ⟨hinv, fun u => ?_, fun u => ?_, fun l' queue u hq hu => ?_⟩ <;> dsimp only
    · by_cases h : u = t
      · subst h
        rwa [Function.update_self, if_pos rfl]
      · rw [hother h]
        exact inv.nested u
    · by_cases h : u = t
      · subst h
        rw [Function.update_self, Function.update_self, if_pos rfl, brackets_cons_inside hin hl',
          hheld]
        exact Or.inl rfl
      · rw [hother h, Function.update_of_ne h]
        exact inv.opened u
    · obtain ⟨hne, hq₀⟩ := mem_takeLock hq hu
      have h : u ≠ t := by
        rintro rfl
        exact hne ((inv.waits l' queue u hq₀ hu).1.unique hwants)
      rw [hother h, Function.update_of_ne h]
      exact inv.waits l' queue u hq₀ hu
  | waits hhad _ =>
    have hheld : held t = brackets t (s.calls t) := by
      rcases inv.opened t with h | ⟨l', hw, h⟩
      · exact h
      · rw [h, hwants.unique hw] at hhad
        exact absurd rfl hhad
    have hsame : Function.update s.calls t (if false = true then f' :: rest else s.calls t) =
        s.calls := by
      rw [if_neg Bool.false_ne_true, Function.update_eq_self]
    refine ⟨hinv, ?_, ?_, fun l' queue u hq hu => ?_⟩ <;> dsimp only <;> rw [hsame]
    · exact inv.nested
    · exact inv.opened
    · rcases mem_waitLock hq hu with ⟨q, hq, hu⟩ | ⟨rfl, rfl⟩
      · exact inv.waits l' q u hq hu
      · exact ⟨hwants, hheld⟩

/-- **`UnlockSVC`** at the end of a bracket. -/
theorem NestInv.unlockThen (inv : NestInv s held) (hc : s.locks.ctxtsk prid = some t)
    (hcalls : s.calls t = f :: rest) (hin : f.inside = true)
    (hb : brackets t calls = brackets t rest) (hn : Nested t calls) :
    ∃ s' held', s.unlockThen prid t calls = some s' ∧ NestInv s' held' := by
  obtain ⟨l, hl⟩ := Frame.lock_of_inside hin t
  have hnot (l : Lock) : ¬Wants t (s.calls t) l :=
    hcalls ▸ not_wants_cons (Frame.not_locking_of_inside hin)
  have hheld : held t = l :: brackets t rest := by
    rw [inv.held_eq hnot, hcalls, brackets_cons_inside hin hl]
  obtain ⟨queue, hq⟩ := inv.locks.queue_of_mem (t := t) (l := l) (hheld ▸ List.mem_cons_self)
  obtain ⟨locks, hrel, hinv, -, -, hwtskq⟩ := inv.locks.release hheld hq
  have hfirst : queue.head? ≠ some t :=
    fun h => hnot l (inv.waits l queue t hq (List.mem_of_mem_head? h)).1
  refine ⟨{ s with locks := locks, calls := Function.update s.calls t calls }, _, ?_, hinv,
    fun u => ?_, fun u => ?_, fun l' queue' u hq' hu => ?_⟩
  · unfold ExtSvc.unlockThen SvcState.unlockSvc
    rw [hc, Option.bind_some, inv.locks.svclocked_eq, hheld, List.head?_cons, Option.bind_some,
      hrel, Option.map_some]
  · dsimp only
    by_cases h : u = t
    · subst h
      rwa [Function.update_self]
    · rw [Function.update_of_ne h]
      exact inv.nested u
  · dsimp only
    by_cases h : u = t
    · subst h
      rw [Function.update_self, afterRelease_self hfirst, hb]
      exact Or.inl rfl
    · rw [Function.update_of_ne h]
      by_cases hu : queue.head? = some u
      · obtain ⟨hwants, hheldu⟩ := inv.waits l queue u hq (List.mem_of_mem_head? hu)
        refine Or.inr ⟨l, hwants, ?_⟩
        rw [afterRelease_gets hu h, hheldu]
      · rw [afterRelease_other hu h]
        exact inv.opened u
  · rw [hwtskq] at hq'
    obtain ⟨hserved, q, hq₀, hsub⟩ := inv.locks.served hq hq'
    obtain ⟨hwants, hheldu⟩ := inv.waits l' q u hq₀ (hsub.subset hu)
    have h : u ≠ t := by
      rintro rfl
      exact hnot l' hwants
    dsimp only
    rw [Function.update_of_ne h, afterRelease_other (fun hu' => hserved u hu' hu) h]
    exact ⟨hwants, hheldu⟩

end SmpTKernel
