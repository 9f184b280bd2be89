import SmpTKernel.KernelInv

/-!
# Suspensions and wakeups

The counters `suscnt` and `wupcnt` against the state of the task and against the accepted calls
since its start. A task is released from a wait only while it waits, unless its termination left it
in the queue of a mutex.
-/

namespace SmpTKernel

open Kern

variable {good : Prop} {x x' : Option Tsk} {s s' : Kern} {a b : Option Tsk × Kern} {t u : Tsk}
  {c c' : TaskCB} {log : List KernEvent} {e : KernEvent}

/-! ## The events of a task -/

def KernEvent.task : KernEvent → Tsk
  | started t | suspended t | resumed t | forced t | wakened t | slept t | awoken t
  | cancelled t _ => t

/-- The number of requests that `tk_can_wup` took back. -/
def KernEvent.returned (t : Tsk) : KernEvent → ℤ
  | cancelled u n => if u = t then n else 0
  | _ => 0

/-- The events since the task was last started. -/
def sinceStart (t : Tsk) (log : List KernEvent) : List KernEvent := log.takeWhile (· ≠ .started t)

/-- The events since the task was last started, or resumed by force. -/
def sinceForced (t : Tsk) (log : List KernEvent) : List KernEvent :=
  log.takeWhile fun e => e ≠ .started t ∧ e ≠ .forced t

theorem ne_of_task {e e' : KernEvent} (h : e.task ≠ e'.task) : e ≠ e' := fun he => h (he ▸ rfl)

/-- The counters are what the calls make of them. -/
structure TaskCB.Synced (c : TaskCB) (t : Tsk) (log : List KernEvent) : Prop where
  suspended : c.state = .suspend ∨ c.state = .waitsus ↔ 0 < c.suscnt
  suscnt : 0 ≤ c.suscnt ∧ c.suscnt ≤ INT_MAX
  wupcnt : 0 ≤ c.wupcnt ∧ c.wupcnt ≤ INT_MAX
  suspensions : ((sinceForced t log).count (.suspended t) : ℤ) =
    (sinceForced t log).count (.resumed t) + c.suscnt
  wakeups : ((sinceStart t log).count (.wakened t) : ℤ) =
    (sinceStart t log).count (.slept t) + (sinceStart t log).count (.awoken t) + c.wupcnt +
      ((sinceStart t log).map (KernEvent.returned t)).sum

theorem TaskCB.Synced.congr (h : c.Synced t log)
    (hs : c'.state = .suspend ∨ c'.state = .waitsus ↔ c.state = .suspend ∨ c.state = .waitsus)
    (hsus : c'.suscnt = c.suscnt) (hwup : c'.wupcnt = c.wupcnt) : c'.Synced t log :=
  ⟨by rw [hs, hsus]; exact h.suspended, by rw [hsus]; exact h.suscnt, by rw [hwup]; exact h.wupcnt,
    by rw [hsus]; exact h.suspensions, by rw [hwup]; exact h.wakeups⟩

theorem TaskCB.Synced.other (h : c.Synced t log) (he : e.task ≠ t) : c.Synced t (e :: log) := by
  have hne {e' : KernEvent} (h' : e'.task = t) : e ≠ e' := ne_of_task fun h => he (h.trans h')
  have hstart : sinceStart t (e :: log) = e :: sinceStart t log :=
    List.takeWhile_cons_of_pos (by simpa using hne rfl)
  have hforced : sinceForced t (e :: log) = e :: sinceForced t log :=
    List.takeWhile_cons_of_pos (by simpa using ⟨hne rfl, hne rfl⟩)
  have hreturned : e.returned t = 0 := by
    cases e <;> first | rfl | exact if_neg he
  refine ⟨h.suspended, h.suscnt, h.wupcnt, ?_, ?_⟩
  · rw [hforced, List.count_cons_of_ne (hne rfl), List.count_cons_of_ne (hne rfl)]
    exact h.suspensions
  · rw [hstart, List.count_cons_of_ne (hne rfl), List.count_cons_of_ne (hne rfl),
      List.count_cons_of_ne (hne rfl), List.map_cons, List.sum_cons, hreturned, zero_add]
    exact h.wakeups

/-! ## The invariant -/

/-- The task is neither dormant nor non-existent. -/
def TaskCB.Alive (c : TaskCB) : Prop := c.state ≠ .nonexist ∧ c.state ≠ .dormant

structure SyncRight (s : Kern) : Prop where
  dormant : ∀ t, (s.tcb t).state = .dormant → (s.tcb t).suscnt = 0 ∧ (s.tcb t).wupcnt = 0
  alive : ∀ t, (s.tcb t).Alive → (s.tcb t).Synced t s.log

/-- A step that writes one control block and notes events of its task. -/
theorem SyncRight.one (inv : SyncRight s) (es : List KernEvent) (hlog : s'.log = es ++ s.log)
    (hes : ∀ e ∈ es, e.task = t) (hother : ∀ u, u ≠ t → s'.tcb u = s.tcb u)
    (hdormant : (s'.tcb t).state = .dormant → (s'.tcb t).suscnt = 0 ∧ (s'.tcb t).wupcnt = 0)
    (halive : (s'.tcb t).Alive → (s'.tcb t).Synced t (es ++ s.log)) : SyncRight s' := by
  have hnoted (u : Tsk) (hu : u ≠ t) (c : TaskCB) (h : c.Synced u s.log) :
      c.Synced u (es ++ s.log) := by
    clear hlog halive
    induction es with
    | nil => exact h
    | cons e es ih =>
      refine TaskCB.Synced.other (ih fun e he => hes e (List.mem_cons_of_mem _ he)) fun he => hu ?_
      rw [← he, hes e List.mem_cons_self]
  refine ⟨fun u hu => ?_, fun u hu => ?_⟩
  · by_cases hut : u = t
    · subst hut
      exact hdormant hu
    · rw [hother u hut] at hu ⊢
      exact inv.dormant u hu
  · rw [hlog]
    by_cases hut : u = t
    · subst hut
      exact halive hu
    · rw [hother u hut] at hu ⊢
      exact hnoted u hut _ (inv.alive u hu)

/-- A step that notes nothing, and leaves the counters and whether a task is suspended. -/
theorem SyncRight.quiet (inv : SyncRight s) (hlog : s'.log = s.log)
    (hdormant : ∀ u, (s'.tcb u).state = .dormant → (s.tcb u).state = .dormant)
    (halive : ∀ u, (s'.tcb u).Alive → (s.tcb u).Alive ∧
      ((s'.tcb u).state = .suspend ∨ (s'.tcb u).state = .waitsus ↔
        (s.tcb u).state = .suspend ∨ (s.tcb u).state = .waitsus))
    (hcount : ∀ u, (s'.tcb u).suscnt = (s.tcb u).suscnt ∧ (s'.tcb u).wupcnt = (s.tcb u).wupcnt) :
    SyncRight s' := by
  refine ⟨fun u hu => ?_, fun u hu => ?_⟩
  · rw [(hcount u).1, (hcount u).2]
    exact inv.dormant u (hdormant u hu)
  · obtain ⟨hold, hsus⟩ := halive u hu
    rw [hlog]
    exact (inv.alive u hold).congr hsus (hcount u).1 (hcount u).2

theorem SyncRight.fields (inv : SyncRight s) (hlog : s'.log = s.log)
    (h : ∀ u, (s'.tcb u).state = (s.tcb u).state ∧ (s'.tcb u).suscnt = (s.tcb u).suscnt ∧
      (s'.tcb u).wupcnt = (s.tcb u).wupcnt) : SyncRight s' := by
  refine inv.quiet hlog (fun u hu => (h u).1 ▸ hu) (fun u hu => ?_) fun u => (h u).2
  unfold TaskCB.Alive at hu ⊢
  rw [(h u).1] at hu ⊢
  exact ⟨hu, Iff.rfl⟩

/-- A step that changes the state of one task, but not whether it is suspended. -/
theorem SyncRight.move (inv : SyncRight s) (hlog : s'.log = s.log)
    (hother : ∀ u, u ≠ t → s'.tcb u = s.tcb u) (hsus : (s'.tcb t).suscnt = (s.tcb t).suscnt)
    (hwup : (s'.tcb t).wupcnt = (s.tcb t).wupcnt)
    (h : (s.tcb t).state = .ready ∧ (s'.tcb t).state = .wait ∨ (s.tcb t).state = .wait ∧
      (s'.tcb t).state = .ready ∨
      (s.tcb t).state = .suspend ∧ (s'.tcb t).state = .waitsus ∨
      (s.tcb t).state = .waitsus ∧ (s'.tcb t).state = .suspend) : SyncRight s' := by
  refine inv.quiet hlog (fun u hu => ?_) (fun u hu => ?_) fun u => ?_
  · by_cases hut : u = t
    · subst hut
      rcases h with h | h | h | h <;> rw [h.2] at hu <;> cases hu
    · exact hother u hut ▸ hu
  · by_cases hut : u = t
    · subst hut
      unfold TaskCB.Alive
      rcases h with h | h | h | h <;> rw [h.1, h.2] <;> decide
    · rw [hother u hut] at hu ⊢
      exact ⟨hu, Iff.rfl⟩
  · by_cases hut : u = t
    · exact hut ▸ ⟨hsus, hwup⟩
    · rw [hother u hut]
      exact ⟨rfl, rfl⟩

/-- A step that writes fields of a control block other than the state and the counters. -/
theorem SyncRight.upd (inv : SyncRight s) {f : TaskCB → TaskCB}
    (hf : (f (s.tcb t)).state = (s.tcb t).state ∧ (f (s.tcb t)).suscnt = (s.tcb t).suscnt ∧
      (f (s.tcb t)).wupcnt = (s.tcb t).wupcnt) : SyncRight (s.upd t f) := by
  refine inv.fields rfl fun u => ?_
  by_cases hut : u = t
  · subst hut
    rw [upd_self]
    exact hf
  · rw [upd_of_ne hut]
    exact ⟨rfl, rfl, rfl⟩

theorem SyncRight.congr (inv : SyncRight s) (hlog : s'.log = s.log) (htcb : s'.tcb = s.tcb) :
    SyncRight s' :=
  inv.fields hlog fun u => by rw [htcb]; exact ⟨rfl, rfl, rfl⟩

theorem isWait_cases {st : TaskState} (h : st.isWait) : st = .wait ∨ st = .waitsus := by
  cases st <;> first | exact Or.inl rfl | exact Or.inr rfl | cases h

theorem SyncRight.release (inv : SyncRight s) (hw : (s.tcb t).state.isWait) :
    SyncRight (s.waitRelease t) := by
  refine inv.move (t := t) waitRelease_log (fun u hu => waitRelease_of_ne hu) ?_ ?_ ?_
  · rw [waitRelease_self, TaskCB.released]
    split_ifs <;> rfl
  · rw [waitRelease_self, TaskCB.released]
    split_ifs <;> rfl
  · rw [waitRelease_self]
    rcases isWait_cases hw with h | h <;> simp [TaskCB.released, h]

theorem SyncRight.enter (inv : SyncRight s) (hlog : s'.log = s.log)
    (hother : ∀ u, u ≠ t → s'.tcb u = s.tcb u) {w : WaitSpec} {wid : ID} {timed : Bool} {atr : ℕ}
    (runs : s.Runs t) (hself : s'.tcb t = (s.tcb t).entered w wid timed atr) : SyncRight s' := by
  refine inv.move hlog hother (by rw [hself]; rfl) (by rw [hself]; rfl) ?_
  rw [hself]
  rcases runs with h | h <;> simp [TaskCB.entered, h]

theorem SyncRight.priority (inv : SyncRight s) (t : Tsk) (p : ℕ) :
    SyncRight (s.reprioritize t p) := by
  have hupd : SyncRight (s.upd t fun c => { c with priority := p }) := inv.upd ⟨rfl, rfl, rfl⟩
  have hnew : SyncRight ((s.upd t fun c => { c with priority := p }).touch t) := hupd.congr rfl rfl
  unfold reprioritize
  dsimp only
  split_ifs
  · split
    · exact hnew
    · exact hnew.congr rfl rfl
  · exact hnew

theorem SyncRight.same (inv : SyncRight s) (h : Same s s') : SyncRight s' := by
  refine inv.fields h.log fun u => ?_
  have hcore := h.tcb u
  unfold TaskCB.core at hcore
  simp only [TaskCB.mk.injEq] at hcore
  tauto

theorem SyncRight.ends (inv : SyncRight s) {f : TaskCB → TaskCB}
    (h : (f (s.tcb t)).state = .nonexist ∨
      (f (s.tcb t)).state = .dormant ∧ (f (s.tcb t)).suscnt = 0 ∧ (f (s.tcb t)).wupcnt = 0) :
    SyncRight (s.upd t f) := by
  refine inv.one (t := t) [] rfl (by simp) (fun u hu => upd_of_ne hu) (fun hd => ?_) fun ha => ?_
  · rw [upd_self] at hd ⊢
    rcases h with h | h
    · rw [h] at hd
      cases hd
    · exact h.2
  · rw [upd_self] at ha
    rcases h with h | h
    · exact absurd h ha.1
    · exact absurd h.1 ha.2

theorem SyncRight.start (inv : SyncRight s) (h : (s.tcb t).state = .dormant) :
    SyncRight ((s.makeReady t).note (.started t)) := by
  obtain ⟨hsus, hwup⟩ := inv.dormant t h
  refine inv.one (t := t) [.started t] rfl (by simp [KernEvent.task]) (fun u hu => ?_)
    (fun hd => ?_) fun _ => ?_
  · rw [note_tcb, makeReady, upd_of_ne hu]
  · rw [note_tcb, makeReady, upd_self] at hd
    cases hd
  · rw [note_tcb, makeReady, upd_self]
    constructor <;> simp [hsus, hwup, sinceStart, sinceForced]

theorem SyncRight.event (inv : SyncRight s) {f : TaskCB → TaskCB} (ha : (s.tcb t).Alive)
    (hf : (f (s.tcb t)).Alive) (es : List KernEvent) (hes : ∀ e ∈ es, e.task = t)
    (hlog : s'.log = es ++ s.log) (htcb : s'.tcb = (s.upd t f).tcb)
    (h : (s.tcb t).Synced t s.log → (f (s.tcb t)).Synced t (es ++ s.log)) : SyncRight s' := by
  refine inv.one (t := t) es hlog hes (fun u hu => by rw [htcb, upd_of_ne hu]) (fun hd => ?_)
    fun _ => ?_
  · rw [htcb, upd_self] at hd
    exact absurd hd hf.2
  · rw [htcb, upd_self]
    exact h (inv.alive t ha)

/-! The events of a task, one after the other. -/

theorem sinceStart_cons (h : e ≠ .started t) : sinceStart t (e :: log) = e :: sinceStart t log :=
  List.takeWhile_cons_of_pos (by simpa using h)

theorem sinceForced_cons (h : e ≠ .started t) (h' : e ≠ .forced t) :
    sinceForced t (e :: log) = e :: sinceForced t log :=
  List.takeWhile_cons_of_pos (by simpa using ⟨h, h'⟩)

theorem sinceForced_forced : sinceForced t (.forced t :: log) = [] :=
  List.takeWhile_cons_of_neg (by simp)

theorem wakeups_cons {n : ℤ} (h : ((sinceStart t log).count (.wakened t) : ℤ) =
      (sinceStart t log).count (.slept t) + (sinceStart t log).count (.awoken t) + n +
        ((sinceStart t log).map (KernEvent.returned t)).sum)
    (he : e = .suspended t ∨ e = .resumed t ∨ e = .forced t) :
    ((sinceStart t (e :: log)).count (.wakened t) : ℤ) =
      (sinceStart t (e :: log)).count (.slept t) + (sinceStart t (e :: log)).count (.awoken t) + n +
        ((sinceStart t (e :: log)).map (KernEvent.returned t)).sum := by
  rcases he with rfl | rfl | rfl <;> simpa [sinceStart_cons, KernEvent.returned] using h

theorem suspensions_cons {n : ℤ}
    (h : ((sinceForced t log).count (.suspended t) : ℤ) = (sinceForced t log).count
      (.resumed t) + n)
    (he : e = .wakened t ∨ e = .slept t ∨ e = .awoken t ∨ ∃ m, e = .cancelled t m) :
    ((sinceForced t (e :: log)).count (.suspended t) : ℤ) = (sinceForced t (e :: log)).count
    (.resumed t) + n := by
  rcases he with rfl | rfl | rfl | ⟨m, rfl⟩ <;> simpa [sinceForced_cons] using h

theorem TaskCB.Synced.suspend (h : c.Synced t log) (ha : c.Alive) (hmax : c.suscnt ≠ INT_MAX) :
    c.suspended.Synced t (.suspended t :: log) := by
  have hsus := h.suscnt
  refine ⟨?_, ⟨?_, ?_⟩, h.wupcnt, ?_, wakeups_cons h.wakeups (Or.inl rfl)⟩
  · refine iff_of_true ?_ (by show 0 < c.suscnt + 1; omega)
    obtain ⟨h1, h2⟩ := ha
    unfold TaskCB.suspended
    cases hs : c.state <;> simp_all
  · show 0 ≤ c.suscnt + 1
    omega
  · show c.suscnt + 1 ≤ INT_MAX
    omega
  · have := h.suspensions
    simp [sinceForced_cons, TaskCB.suspended]
    omega

theorem TaskCB.Synced.resume (h : c.Synced t log) (hs : c.state = .suspend ∨ c.state = .waitsus) :
    c.resumed.Synced t (.resumed t :: log) := by
  have hpos := h.suspended.mp hs
  have hsus := h.suscnt
  have heq := h.suspensions
  have hcount : c.resumed.suscnt = c.suscnt - 1 := by
    unfold TaskCB.resumed
    split_ifs <;> rfl
  have hwup : c.resumed.wupcnt = c.wupcnt := by
    unfold TaskCB.resumed
    split_ifs <;> rfl
  refine ⟨?_, ⟨?_, ?_⟩, hwup ▸ h.wupcnt, ?_, hwup ▸ wakeups_cons h.wakeups (Or.inr (Or.inl rfl))⟩
  · rw [hcount]
    unfold TaskCB.resumed
    split_ifs with h0
    · refine iff_of_false ?_ (by omega)
      rcases hs with hs | hs <;> simp [TaskCB.unsuspended, hs]
    · exact iff_of_true hs (by omega)
  · omega
  · omega
  · simp [sinceForced_cons, hcount]
    omega

theorem TaskCB.Synced.force (h : c.Synced t log) (hs : c.state = .suspend ∨ c.state = .waitsus) :
    c.forced.Synced t (.forced t :: log) := by
  refine ⟨iff_of_false ?_ (lt_irrefl 0), ⟨le_rfl, by show (0 : ℤ) ≤ INT_MAX; decide⟩, h.wupcnt, ?_,
    wakeups_cons h.wakeups (Or.inr (Or.inr rfl))⟩
  · rcases hs with hs | hs <;> simp [TaskCB.forced, TaskCB.unsuspended, hs]
  · simp [sinceForced_forced, TaskCB.forced, TaskCB.unsuspended]

theorem TaskCB.Synced.wup (h : c.Synced t log) {n : ℤ} (hn : 0 ≤ n ∧ n ≤ INT_MAX)
    (he : e = .wakened t ∧ n = c.wupcnt + 1 ∨ e = .slept t ∧ n = c.wupcnt - 1 ∨
      e = .cancelled t c.wupcnt ∧ n = 0) :
    ({ c with wupcnt := n } : TaskCB).Synced t (e :: log) := by
  have heq := h.wakeups
  refine ⟨h.suspended, h.suscnt, hn, suspensions_cons h.suspensions ?_, ?_⟩
  · rcases he with ⟨rfl, -⟩ | ⟨rfl, -⟩ | ⟨rfl, -⟩
    · exact Or.inl rfl
    · exact Or.inr (Or.inl rfl)
    · exact Or.inr (Or.inr (Or.inr ⟨_, rfl⟩))
  · rcases he with ⟨rfl, rfl⟩ | ⟨rfl, rfl⟩ | ⟨rfl, rfl⟩ <;>
      simp [sinceStart_cons, KernEvent.returned] <;> omega

theorem TaskCB.Synced.awake (h : c.Synced t log) : c.Synced t (.awoken t :: .wakened t :: log) := by
  have heq := h.wakeups
  refine ⟨h.suspended, h.suscnt, h.wupcnt,
    suspensions_cons (suspensions_cons h.suspensions (Or.inl rfl)) (Or.inr (Or.inr (Or.inl rfl))),
    ?_⟩
  simp [sinceStart_cons, KernEvent.returned]
  omega

theorem suspended_alive {c : TaskCB} (h : c.Alive) : c.suspended.Alive := by
  obtain ⟨h1, h2⟩ := h
  unfold TaskCB.Alive TaskCB.suspended
  cases hs : c.state <;> simp_all

theorem alive_of_suspended {c : TaskCB} (h : c.state = .suspend ∨ c.state = .waitsus) :
    c.Alive := by
  unfold TaskCB.Alive
  rcases h with h | h <;> simp [h]

theorem unsuspended_alive (c : TaskCB) : c.unsuspended.Alive := by
  unfold TaskCB.Alive TaskCB.unsuspended
  by_cases h : c.state = .suspend <;> simp [h]

theorem resumed_alive {c : TaskCB} (h : c.state = .suspend ∨ c.state = .waitsus) :
    c.resumed.Alive := by
  unfold TaskCB.resumed
  split_ifs
  · exact unsuspended_alive _
  · exact alive_of_suspended h

theorem SyncRight.counted (inv : SyncRight s) (f : TaskCB → TaskCB)
    (hstate : (f (s.tcb t)).state = (s.tcb t).state) (es : List KernEvent)
    (hes : ∀ e ∈ es, e.task = t) (hlog : s'.log = es ++ s.log) (htcb : s'.tcb = (s.upd t f).tcb)
    (hd : (s.tcb t).state = .dormant → (f (s.tcb t)).suscnt = 0 ∧ (f (s.tcb t)).wupcnt = 0)
    (h : (s.tcb t).Synced t s.log → (f (s.tcb t)).Synced t (es ++ s.log)) : SyncRight s' := by
  refine inv.one (t := t) es hlog hes (fun u hu => by rw [htcb, upd_of_ne hu]) (fun hs => ?_)
    fun ha => ?_
  · rw [htcb, upd_self] at hs ⊢
    exact hd (hstate ▸ hs)
  · rw [htcb, upd_self] at ha ⊢
    unfold TaskCB.Alive at ha
    rw [hstate] at ha
    exact h (inv.alive t ha)

theorem SyncRight.sleep (inv : SyncRight s) (h : (s.tcb t).wupcnt > 0) :
    SyncRight ((s.upd t fun c => { c with wupcnt := c.wupcnt - 1 }).note (.slept t)) := by
  refine inv.counted (fun c => { c with wupcnt := c.wupcnt - 1 }) rfl [.slept t]
    (by simp [KernEvent.task]) rfl rfl
    (fun hd => ?_) fun hold => ?_
  · rw [(inv.dormant t hd).2] at h
    exact absurd h (lt_irrefl 0)
  · have := hold.wupcnt
    exact hold.wup (by omega) (Or.inr (Or.inl ⟨rfl, rfl⟩))

theorem SyncRight.wake (inv : SyncRight s) (h : (s.tcb t).wupcnt ≠ INT_MAX)
    (hd : (s.tcb t).state ≠ .dormant) :
    SyncRight ((s.upd t fun c => { c with wupcnt := c.wupcnt + 1 }).note (.wakened t)) := by
  refine inv.counted (fun c => { c with wupcnt := c.wupcnt + 1 }) rfl [.wakened t]
    (by simp [KernEvent.task]) rfl rfl
    (fun hs => absurd hs hd) fun hold => ?_
  have := hold.wupcnt
  exact hold.wup (by omega) (Or.inl ⟨rfl, rfl⟩)

theorem SyncRight.clear (inv : SyncRight s) (t : Tsk) :
    SyncRight ((s.upd t fun c => { c with wupcnt := 0 }).note (.cancelled t (s.tcb t).wupcnt)) :=
  inv.counted (fun c => { c with wupcnt := 0 }) rfl [.cancelled t (s.tcb t).wupcnt]
  (by simp [KernEvent.task]) rfl rfl
    (fun hd => ⟨(inv.dormant t hd).1, rfl⟩)
    fun hold => hold.wup ⟨le_rfl, by decide⟩ (Or.inr (Or.inr ⟨rfl, rfl⟩))

theorem SyncRight.awake (inv : SyncRight s) (t : Tsk) :
    SyncRight ((s.note (.wakened t)).note (.awoken t)) :=
  inv.counted (fun c => c) rfl [.awoken t, .wakened t] (by simp [KernEvent.task]) rfl
    (by simp [Kern.upd]) (inv.dormant t) fun hold => hold.awake

theorem SyncRight.step (inv : SyncRight s) (link : LinkInv True (x, s))
    (h : KernStep True (x, s) (x', s')) :
    SyncRight s' := by
  cases h with
  | release t h =>
    exact inv.release (h.elim (fun ⟨q, hq⟩ => (link.waits t q (Or.inl trivial) hq).1.1) And.left)
  | priority t p h => exact inv.priority t p
  | same h => exact inv.same h
  | mask t m h => exact inv.upd ⟨rfl, rfl, rfl⟩
  | nonReady t h => exact inv.upd ⟨rfl, rfl, rfl⟩
  | cancel t h =>
    exact SyncRight.congr (s := Kern.upd _ t fun c => { c with timed := false })
      (inv.upd ⟨rfl, rfl, rfl⟩) rfl rfl
  | stay t h => exact inv
  | dormant t => exact inv.ends (Or.inr ⟨rfl, rfl, rfl⟩)
  | gone t => exact inv.ends (Or.inl rfl)
  | create t p h =>
    rw [makeDormant, upd_upd]
    exact inv.ends (Or.inr ⟨rfl, rfl, rfl⟩)
  | delete t h => exact inv.ends (Or.inl rfl)
  | start t h => exact inv.start h
  | register k id atr h => exact inv.congr rfl rfl
  | unregister k id h => exact inv.congr rfl rfl
  | enter t k id atr tmout runs hatr hmask =>
    exact inv.enter rfl (fun u hu => gcbMakeWait_of_ne hu ..) runs (gcbMakeWait_self ..)
  | alone t w timed runs hw hrdv hmask =>
    exact inv.enter rfl (fun u hu => waitAlone_of_ne hu ..) runs (waitAlone_self ..)
  | rdv t atr runs hmask =>
    have hnew : SyncRight (Kern.waitAlone _ t .rdv false atr) :=
      inv.enter rfl (fun u hu => waitAlone_of_ne hu ..) runs (waitAlone_self ..)
    exact hnew.congr rfl rfl
  | accept u id atr hu hatr hmask =>
    refine inv.fields rfl fun v => ?_
    by_cases hv : v = u
    · subst hv
      simp [toRdv, setWait, waitCancel]
    · simp [toRdv, setWait, waitCancel, upd_of_ne hv]
  | forward u id atr hw hrdv hatr hmask =>
    refine inv.fields rfl fun v => ?_
    by_cases hv : v = u
    · subst hv
      simp [toCal, setWait, enqueue]
    · simp [toCal, setWait, enqueue, upd_of_ne hv]
  | newRdv u atr hw hrdv hmask =>
    have hnew : SyncRight (Kern.upd _ u fun c => { c with nodiswai := atr &&& TA_NODISWAI ≠ 0 }) :=
      inv.upd ⟨rfl, rfl, rfl⟩
    exact hnew.congr rfl rfl
  | suspend t h h' hmax =>
    rw [suspendTask_eq]
    exact inv.event ⟨h, h'⟩ (suspended_alive ⟨h, h'⟩) [.suspended t] (by simp [KernEvent.task]) rfl
      rfl
      fun hold => hold.suspend ⟨h, h'⟩ hmax
  | resume t h =>
    rw [resumeTask_eq]
    exact inv.event (alive_of_suspended h) (resumed_alive h) [.resumed t]
      (by simp [KernEvent.task]) rfl rfl
      fun hold => hold.resume h
  | force t h =>
    rw [forceTask_eq]
    exact inv.event (f := TaskCB.forced) (alive_of_suspended h) (unsuspended_alive _) [.forced t]
      (by simp [KernEvent.task]) rfl rfl fun hold => hold.force h
  | sleep t h => exact inv.sleep h
  | wake t h hd => exact inv.wake h hd
  | awake t => exact inv.awake t
  | clear t => exact inv.clear t

theorem SyncRight.steps (inv : SyncRight a.2) (link : LinkInv True a) (h : KernSteps True a b) :
    SyncRight b.2 := by
  induction h with
  | refl => exact inv
  | tail hs h ih => exact ih.step (link.steps hs) h

theorem Kern.Initial.sync (h : s.Initial) : SyncRight s := by
  refine ⟨fun t ht => ?_, fun t ht => absurd (h.state t) ht.1⟩
  rw [h.state t] at ht
  cases ht

theorem KernRun.sync (run : KernRun (fun s op => op.Straight s) s) : SyncRight s := by
  induction run with
  | init s initial => exact initial.sync
  | step run op runs fits hok ih =>
    have link : LinkInv True (none, _) := run.link fun _ _ _ h => h
    exact SyncRight.steps (a := (none, _)) (b := (none, _)) ih link
      (link.exec_steps runs fits fun _ => hok)

/-! ## Errors -/

/-- The calls that start, end, suspend and resume a task, and those for sleep and wakeup. -/
def KernOp.ForSync : KernOp → Prop
  | .staTsk .. | .terTsk .. | .relWai .. | .susTsk .. | .rsmTsk .. | .frsmTsk .. | .slpTsk ..
  | .wupTsk ..
  | .canWup .. => True
  | _ => False

/-- An error of the call leaves the state as it was. -/
def Harmless (s : Kern) (r : Kern × Option ER) : Prop := ∀ e, r.2 = some e → e < E_OK → r.1 = s

theorem Harmless.same (s : Kern) (v : Option ER) : Harmless s (s, v) := fun _ _ _ => rfl

theorem Harmless.value {v : Option ER} (s s' : Kern) (h : ∀ e ∈ v, E_OK ≤ e) : Harmless s (s', v) :=
  fun e he hneg => absurd hneg (not_lt.mpr (h e he))

theorem Harmless.done (s s' : Kern) : Harmless s (s', some E_OK) := .value s s' (by simp)

theorem Harmless.checked {chk : ER} {call : Kern × Option ER} (h : Harmless s call) :
    Harmless s (s.checked chk call) := by
  unfold Kern.checked
  split_ifs
  · exact .same _ _
  · exact h

theorem Harmless.onTask {chk dormant : ER} {call : Kern × Option ER}
    (h : (s.tcb t).state ≠ .nonexist → ((s.tcb t).state = .dormant → dormant = E_OK) →
      Harmless s call) :
    Harmless s (s.onTask t chk dormant call) := by
  refine .checked ?_
  split_ifs with hn hd
  · exact .same _ _
  · exact .same _ _
  · exact h hn fun hs => not_not.mp fun hne => hd ⟨hs, hne⟩

theorem SyncRight.kept (inv : SyncRight s) {op : KernOp} (h : op.ForSync) :
    Harmless s (op.exec s) := by
  cases op with
  | staTsk t chk =>
    refine .onTask fun _ _ => ?_
    split_ifs
    · exact .same _ _
    · exact .done _ _
  | terTsk t hook chk => exact .onTask fun _ _ => .done _ _
  | relWai t hook chk =>
    refine .onTask fun _ _ => ?_
    split_ifs
    · exact .done _ _
    · exact .same _ _
  | susTsk t chk =>
    refine .onTask fun _ _ => ?_
    split_ifs
    · exact .same _ _
    · exact .done _ _
  | rsmTsk t chk =>
    refine .onTask fun _ _ => ?_
    split_ifs
    · exact .done _ _
    · exact .same _ _
  | frsmTsk t chk =>
    refine .onTask fun _ _ => ?_
    split_ifs
    · exact .done _ _
    · exact .same _ _
  | slpTsk t tmout chk =>
    refine .checked ?_
    split_ifs
    · exact .same _ _
    · exact .done _ _
    · exact .same _ _
    · exact .value _ _ nofun
  | wupTsk t chk =>
    refine .onTask fun _ _ => ?_
    split_ifs
    · exact .done _ _
    · exact .same _ _
    · exact .done _ _
  | canWup t chk =>
    refine .onTask fun hn hd => .value _ _ fun e he => ?_
    have halive : (s.tcb t).Alive := ⟨hn, fun hs => absurd (hd hs) (by decide)⟩
    exact Option.some.inj he ▸ (inv.alive t halive).wupcnt.1
  | _ => exact absurd h id

/-- The counters follow the calls in every run in which no termination of a waiting task gives it a
priority; a task runs only when every suspension has been taken back, and an error changes
nothing. -/
theorem kernRun_syncRight (run : KernRun (fun s op => op.Straight s) s) :
    SyncRight s ∧
      (∀ t, (s.tcb t).state = .ready →
        (sinceForced t s.log).count (.suspended t) = (sinceForced t s.log).count (.resumed t)) ∧
      ∀ op : KernOp, op.ForSync → Harmless s (op.exec s) := by
  refine ⟨run.sync, fun t ht => ?_, fun op h => run.sync.kept h⟩
  have hsync := run.sync.alive t (by rw [TaskCB.Alive, ht]; decide)
  have hzero : ¬0 < (s.tcb t).suscnt := by
    rw [← hsync.suspended, ht]
    decide
  have hnonneg := hsync.suscnt
  have heq := hsync.suspensions
  omega

/-- A suspended task with two requests to wake it up, and the end of a task that waits for its
mutex. -/
def syncRun : List KernOp :=
  [.creTsk 1 10 0, .creTsk 2 20 0, .creMtx 1 TA_INHERIT 0 0, .staTsk 1 0, .staTsk 2 0,
    .locMtx 1 ⟨0, 9⟩ 1 TMO_FEVR 0, .locMtx 2 ⟨0, 9⟩ 1 TMO_FEVR 0, .wupTsk 1 0, .susTsk 1 0,
    .wupTsk 1 0, .terTsk 2 ⟨0, 9⟩ 0]

theorem kernRun_syncRight_terminated :
    ((execAll syncRun boot).tcb 1).state = .suspend ∧ ((execAll syncRun boot).tcb 1).suscnt = 1 ∧
      ((execAll syncRun boot).tcb 1).wupcnt = 2 ∧ SyncRight (execAll syncRun boot) :=
  ⟨by decide +kernel, by decide +kernel, by decide +kernel,
    (kernRun_syncRight ((KernRun.init boot boot_initial).all (by decide +kernel))).1⟩

/-- The mutex it waited for is passed to the task that was terminated, which becomes suspended. -/
theorem kernRun_sync_wrong : ¬∀ s, KernRun (fun _ _ => True) s → SyncRight s := by
  intro h
  have run : KernRun (fun _ _ => True) (execAll (ghostRun ++ [.unlMtx 2 ⟨0, 9⟩ 2 0]) boot) :=
    (KernRun.init boot boot_initial).all (by decide +kernel)
  have hstate : ((execAll (ghostRun ++ [.unlMtx 2 ⟨0, 9⟩ 2 0]) boot).tcb 1).state = .suspend ∧
      ((execAll (ghostRun ++ [.unlMtx 2 ⟨0, 9⟩ 2 0]) boot).tcb 1).suscnt = 0 := by decide +kernel
  have hsync :=
    ((h _ run).alive 1 (alive_of_suspended (Or.inl hstate.1))).suspended.mp (Or.inl hstate.1)
  rw [hstate.2] at hsync
  exact lt_irrefl 0 hsync

end SmpTKernel
