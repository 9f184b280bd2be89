import SmpTKernel.TimerHistory

/-!
# The timer queue is the agenda of its history

The ring of `timer_queue` holds the pending events of the history in the order of their times, and
the blocks of these events hold what they were inserted with.
-/

namespace SmpTKernel

open LinkRing Agenda Fuel

/-- The head of the timer queue. -/
abbrev timerHead : TimerNode := .que .timerQueue

/-- The ring of the timer queue holds the events `es`. -/
abbrev TimerRing (m : Links TimerNode) (es : List Tmeb) : Prop := IsRing m timerHead (es.map .tmeb)

theorem tmeb_mem {e : Tmeb} {es : List Tmeb} :
    TimerNode.tmeb e ∈ timerHead :: es.map .tmeb ↔ e ∈ es := by
  rw [List.mem_cons, List.mem_map_of_injective fun _ _ h => TimerNode.tmeb.inj h]
  exact or_iff_right TimerNode.noConfusion

/-! ## Times -/

/-- A time of the 64-bit clock. -/
def InClock (x : ℤ) : Prop := 0 ≤ x ∧ x < 2 ^ 63

theorem llCmp_eq {x y : ℤ} (hx : InClock x) (hy : InClock y) : llCmp x y = x - y := by
  obtain ⟨hx, hx'⟩ := hx
  obtain ⟨hy, hy'⟩ := hy
  exact longlong_eq (by omega) (by omega)

/-! ## The routines of `timer.c` -/

section Routines

variable {s : Timer} {e : Tmeb} {es a b c : List Tmeb}

/-- The loop of the insertion walks past the events `b` that are not later, up to the part `c`. -/
theorem enqueuePlace_eq (he : InClock (s.time e))
    (hc : ∀ y ∈ c, InClock (s.time y) ∧ s.time e < s.time y) :
    ∀ {a b : List Tmeb} {fuel : ℕ}, TimerRing s.que (a ++ (b ++ c)) →
      (∀ y ∈ b, InClock (s.time y) ∧ s.time y ≤ s.time e) → b.length < fuel →
      enqueuePlace s e fuel (((b ++ c).map .tmeb).headD timerHead) =
        some ((c.map .tmeb).headD timerHead)
  | _, _, 0, _, _, hf => absurd hf (Nat.not_lt_zero _)
  | _, [], fuel + 1, _, _, _ => by
    cases c with
    | nil => rfl
    | cons y c =>
      obtain ⟨hy, hlt⟩ := hc y List.mem_cons_self
      rw [List.nil_append, List.map_cons, List.headD_cons, enqueuePlace, llCmp_eq he hy,
        if_pos (by omega)]
  | a, y :: b, fuel + 1, r, hb, hf => by
    obtain ⟨hy, hle⟩ := hb y List.mem_cons_self
    have hnext : (s.que (.tmeb y)).next = ((b ++ c).map .tmeb).headD timerHead := by
      have r : IsRing s.que timerHead (a.map .tmeb ++ .tmeb y :: (b ++ c).map .tmeb) := by
        rw [← List.map_cons, ← List.map_append]
        exact r
      exact r.next_mid
    have r' : TimerRing s.que (a ++ [y] ++ (b ++ c)) := by rwa [List.append_assoc]
    rw [List.cons_append, List.map_cons, List.headD_cons, enqueuePlace, llCmp_eq he hy,
      if_neg (by omega), hnext]
    exact enqueuePlace_eq he hc r' (fun x hx => hb x (List.mem_cons_of_mem _ hx))
      (Nat.lt_of_succ_lt_succ hf)

/-- An event goes in before the first later one; the cells of no other blocks are written. -/
theorem enqueueTmeb_returns (r : TimerRing s.que es) (he : InClock (s.time e))
    (hes : ∀ x ∈ es, InClock (s.time x)) (hs : es.Pairwise fun x y => s.time x ≤ s.time y)
    (hnot : e ∉ es) :
    ∃ a b m, es = a ++ b ∧ (∀ y ∈ a, s.time y ≤ s.time e) ∧ (∀ y ∈ b, s.time e < s.time y) ∧
      TimerRing m (a ++ e :: b) ∧ (∀ x, x ∉ es → x ≠ e → m (.tmeb x) = s.que (.tmeb x)) ∧
      Returns (fun fuel => enqueueTmeb fuel s e) { s with que := m } := by
  obtain ⟨a, b, rfl, ha, hb⟩ := exists_position hs e
  have hhead : (s.que timerHead).next = ((a ++ b).map .tmeb).headD timerHead := r.next_head
  have r' : IsRing s.que timerHead (a.map .tmeb ++ b.map .tmeb) := List.map_append ▸ r
  have hnot' : TimerNode.tmeb e ∉ timerHead :: (a.map .tmeb ++ b.map .tmeb) := by
    rw [← List.map_append]
    exact fun h => hnot (tmeb_mem.mp h)
  refine ⟨a, b, queInsert (.tmeb e) ((b.map .tmeb).headD timerHead) s.que, rfl, ha, hb, ?_,
    fun x hx hxe => ?_, a.length + 1, fun fuel hf => ?_⟩
  · show IsRing _ _ _
    rw [List.map_append, List.map_cons]
    exact r'.insertBefore hnot'
  · apply r'.insertBefore_frame hnot'
    · rw [← List.map_append]
      exact fun h => hx (tmeb_mem.mp h)
    · exact fun h => hxe (TimerNode.tmeb.inj h)
  · have hplace :=
      enqueuePlace_eq (a := []) he (fun y hy => ⟨hes y (List.mem_append_right a hy), hb y hy⟩) r
      (fun y hy => ⟨hes y (List.mem_append_left b hy), ha y hy⟩) hf
    show (enqueuePlace s e fuel (s.que timerHead).next).map _ = _
    rw [hhead, hplace]
    rfl

/-- The event leaves the ring; the cells of blocks outside are not written. -/
theorem timerDelete_ring (r : TimerRing s.que (a ++ e :: b)) :
    TimerRing (timerDelete s e).que (a ++ b) ∧
      ∀ x, x ∉ a ++ b → (timerDelete s e).que (.tmeb x) = s.que (.tmeb x) := by
  have r' : IsRing s.que timerHead (a.map .tmeb ++ .tmeb e :: b.map .tmeb) := by
    rw [← List.map_cons, ← List.map_append]
    exact r
  refine ⟨?_, fun x hx => ?_⟩
  · show IsRing _ _ _
    rw [List.map_append]
    exact r'.unlink
  · apply r'.unlink_frame
    rw [← List.map_append]
    exact fun h => hx (tmeb_mem.mp h)

end Routines

/-! ## The invariant -/

/-- What the block of an event holds. -/
def Timer.entry (s : Timer) (e : Tmeb) : Entry := ⟨e, s.time e, s.callback e, s.arg e⟩

structure TimerInv (P : ℕ) (s : Timer) (log : List TimerEvent) : Prop where
  queue : ∃ l, Sorts Entry.time (pendingEvents log) l ∧ TimerRing s.que (l.map Entry.event)
  blocks : ∀ x ∈ pendingEvents log, s.entry x.event = x
  inClock : ∀ x ∈ pendingEvents log, InClock x.time
  parked : ∀ e ∈ parkedEvents log,
    (s.que (.tmeb e)).next = .tmeb e ∧ ∀ x ∈ pendingEvents log, x.event ≠ e
  clock : s.current_time = clockOf log
  clock_in : InClock (clockOf log)
  right : RightHistory P log

section Inv

variable {P : ℕ} {s : Timer} {log : List TimerEvent} {ev : TimerEvent} {x : Entry} {e : Tmeb}
  {l : List Entry}

/-- The block of an event is read through the fields the timer uses. -/
theorem entry_set (s : Timer) (x : Entry) (e : Tmeb) :
    ((s.setCallback x.event x.callback x.arg).setTime x.event x.time).entry e =
      if e = x.event then x else s.entry e := by
  unfold Timer.entry Timer.setTime Timer.setCallback
  split_ifs with h
  · subst h
    simp only [Function.update_self]
  · simp only [Function.update_of_ne h]

theorem mem_map_event (hl : Sorts Entry.time (pendingEvents log) l) :
    e ∈ l.map Entry.event ↔ ∃ x ∈ pendingEvents log, x.event = e := by
  rw [List.mem_map]
  exact exists_congr fun x => and_congr_left' hl.mem_iff

theorem parkedAfter_of_inserts (h : ev.Inserts x) (q : List Tmeb) :
    ev.parkedAfter q = q.filter fun e => e ≠ x.event := by
  rcases h with rfl | ⟨tmout, rfl⟩ <;> rfl

theorem pending_of_inserts (h : ev.Inserts x) (p : List Entry) : ev.pending p = p ++ [x] := by
  rcases h with rfl | ⟨tmout, rfl⟩ <;> rfl

theorem clock_of_inserts (h : ev.Inserts x) (now : ℤ) : ev.clock now = now := by
  rcases h with rfl | ⟨tmout, rfl⟩ <;> rfl

/-- **Insertion.** -/
theorem TimerInv.arrive (inv : TimerInv P s log) (hnot : ∀ y ∈ pendingEvents log, y.event ≠ x.event)
    (hx : InClock x.time) : ∃ s', Returns (fun fuel => enqueueTmeb fuel
      ((s.setCallback x.event x.callback x.arg).setTime x.event x.time) x.event) s' ∧
        s'.entry x.event = x ∧
      ∀ ev : TimerEvent, ev.Inserts x → RightEvent P log ev → TimerInv P s' (log ++ [ev]) := by
  obtain ⟨l, hl, hring⟩ := inv.queue
  let s₁ := (s.setCallback x.event x.callback x.arg).setTime x.event x.time
  have hself : s₁.entry x.event = x := (entry_set s x x.event).trans (if_pos rfl)
  have hother (y : Entry) (hy : y ∈ pendingEvents log) : s₁.entry y.event = y := by
    rw [entry_set, if_neg (hnot y hy)]
    exact inv.blocks y hy
  have htime (y : Entry) (hy : y ∈ l) : s₁.time y.event = y.time :=
    congrArg Entry.time (hother y (hl.mem_iff.mp hy))
  have htx : s₁.time x.event = x.time := congrArg Entry.time hself
  obtain ⟨a, b, m, hab, ha, hb, hring', hframe, hret⟩ :=
    enqueueTmeb_returns (s := s₁) (e := x.event) hring
    (htx ▸ hx)
    (fun e he => by
      obtain ⟨y, hy, rfl⟩ := List.mem_map.mp he
      rw [htime y hy]
      exact inv.inClock y (hl.mem_iff.mp hy))
    (List.pairwise_map.mpr (hl.sorted.imp_of_mem fun {y z} hy hz h => by
      rwa [htime y hy, htime z hz]))
    (fun he => by
      obtain ⟨y, hy, he⟩ := List.mem_map.mp he
      exact hnot y (hl.mem_iff.mp hy) he)
  obtain ⟨la, lb, rfl, rfl, rfl⟩ := List.map_eq_append_iff.mp hab
  refine ⟨_, hret, hself, fun ev hev hright => ?_⟩
  have hsorts : Sorts Entry.time (pendingEvents log ++ [x]) (la ++ x :: lb) := by
    apply hl.insert
    · intro y hy
      rw [← htime y (List.mem_append_left lb hy), ← htx]
      exact ha _ (List.mem_map_of_mem hy)
    · intro y hy
      rw [← htime y (List.mem_append_right la hy), ← htx]
      exact hb _ (List.mem_map_of_mem hy)
  have hmem (y : Entry) (hy : y ∈ pendingEvents (log ++ [ev])) : y ∈ pendingEvents log ∨ y = x := by
    rw [pendingEvents_concat, pending_of_inserts hev] at hy
    exact (List.mem_append.mp hy).imp_right List.mem_singleton.mp
  constructor
  · refine ⟨la ++ x :: lb, ?_, ?_⟩
    · rwa [pendingEvents_concat, pending_of_inserts hev]
    · rwa [List.map_append, List.map_cons]
  · intro y hy
    rcases hmem y hy with hy | rfl
    · exact hother y hy
    · exact hself
  · intro y hy
    rcases hmem y hy with hy | rfl
    · exact inv.inClock y hy
    · exact hx
  · intro e he
    rw [parkedEvents_concat, parkedAfter_of_inserts hev, List.mem_filter, decide_eq_true_iff] at he
    obtain ⟨hself', hpend⟩ := inv.parked e he.1
    refine ⟨?_, fun y hy => ?_⟩
    · show (m (.tmeb e)).next = _
      rw [hframe e ?_ he.2]
      · exact hself'
      · intro h
        obtain ⟨y, hy, rfl⟩ := (mem_map_event hl).mp h
        exact hpend y hy rfl
    · rcases hmem y hy with hy | rfl
      · exact hpend y hy
      · exact he.2.symm
  · rw [clockOf_concat, clock_of_inserts hev]
    exact inv.clock
  · rw [clockOf_concat, clock_of_inserts hev]
    exact inv.clock_in
  · exact inv.right.concat hright

/-- **Insertion without a time.** -/
theorem TimerInv.park (inv : TimerInv P s log) (hnot : ∀ y ∈ pendingEvents log, y.event ≠ e)
    (callback : Option Cback) (arg : ℕ) :
    TimerInv P { s.setCallback e callback arg with que := queInit (.tmeb e) s.que }
      (log ++ [.parked e]) := by
  obtain ⟨l, hl, hring⟩ := inv.queue
  have hout : TimerNode.tmeb e ∉ timerHead :: (l.map Entry.event).map .tmeb := by
    intro h
    obtain ⟨y, hy, he⟩ := (mem_map_event hl).mp (tmeb_mem.mp h)
    exact hnot y hy he
  constructor
  · rw [pendingEvents_concat]
    refine ⟨l, hl, hring.congr fun z hz => ?_⟩
    exact single_apply_of_ne (ne_of_mem_of_not_mem hz hout) s.que
  · intro y hy
    rw [pendingEvents_concat] at hy
    refine Eq.trans ?_ (inv.blocks y hy)
    unfold Timer.entry Timer.setCallback
    simp only [Function.update_of_ne (hnot y hy)]
  · intro y hy
    rw [pendingEvents_concat] at hy
    exact inv.inClock y hy
  · intro e' he'
    rw [pendingEvents_concat]
    by_cases he : e' = e
    · subst he
      exact ⟨congrArg Cell.next (single_apply_self _ s.que), hnot⟩
    · rw [parkedEvents_concat] at he'
      obtain ⟨hself, hpend⟩ := inv.parked e' ((List.mem_cons.mp he').resolve_left he)
      refine ⟨Eq.trans ?_ hself, hpend⟩
      exact congrArg Cell.next (single_apply_of_ne (fun h => he (TimerNode.tmeb.inj h)) s.que)
  · rw [clockOf_concat]
    exact inv.clock
  · rw [clockOf_concat]
    exact inv.clock_in
  · exact inv.right.concat trivial

/-- An event that is in the queue leaves it. -/
theorem TimerInv.remove (inv : TimerInv P s log) (hx : x ∈ pendingEvents log)
    (hpend : ∀ p, ev.pending p = dropEvent x.event p) (hpark : ∀ q, ev.parkedAfter q = q)
    (hclock : ∀ now, ev.clock now = now) (hright : RightEvent P log ev) :
    TimerInv P (timerDelete s x.event) (log ++ [ev]) := by
  obtain ⟨l, hl, hring⟩ := inv.queue
  obtain ⟨a, b, rfl⟩ := List.append_of_mem (hl.mem_iff.mpr hx)
  rw [List.map_append, List.map_cons] at hring
  obtain ⟨hring', hframe⟩ := timerDelete_ring hring
  have hnd := (hl.perm.map Entry.event).nodup_iff.mpr inv.right.nodup
  rw [List.map_append, List.map_cons, List.nodup_middle, List.nodup_cons] at hnd
  have hdrop : dropEvent x.event (a ++ x :: b) = a ++ b := by
    have hkeep (l : List Entry)
        (hsub : l.map Entry.event ⊆ a.map Entry.event ++ b.map Entry.event) :
        dropEvent x.event l = l := by
      apply List.filter_eq_self.mpr
      intro y hy
      exact decide_eq_true fun h => hnd.1 (h ▸ hsub (List.mem_map_of_mem hy))
    show List.filter _ _ = _
    rw [List.filter_append]
    exact congrArg₂ _ (hkeep a (List.subset_append_left _ _))
      ((dropEvent_cons_self x b).trans (hkeep b (List.subset_append_right _ _)))
  have hsub (y : Entry) (hy : y ∈ pendingEvents (log ++ [ev])) : y ∈ pendingEvents log := by
    rw [pendingEvents_concat, hpend] at hy
    exact (mem_dropEvent.mp hy).1
  constructor
  · refine ⟨a ++ b, ?_, ?_⟩
    · rw [pendingEvents_concat, hpend, ← hdrop]
      exact hl.filter _
    · rwa [List.map_append]
  · exact fun y hy => inv.blocks y (hsub y hy)
  · exact fun y hy => inv.inClock y (hsub y hy)
  · intro e he
    rw [parkedEvents_concat, hpark] at he
    obtain ⟨hself, hout⟩ := inv.parked e he
    refine ⟨?_, fun y hy => hout y (hsub y hy)⟩
    rw [hframe e]
    · exact hself
    · rw [← List.map_append]
      intro h
      obtain ⟨y, hy, rfl⟩ := List.mem_map.mp h
      refine hout y (hl.mem_iff.mp ?_) rfl
      exact (List.mem_append.mp hy).elim (List.mem_append_left _)
        fun h => List.mem_append_right _ (List.mem_cons_of_mem _ h)
  · rw [clockOf_concat, hclock]
    exact inv.clock
  · rw [clockOf_concat, hclock]
    exact inv.clock_in
  · exact inv.right.concat hright

/-- **Deletion** of an event that is in the queue, or that was inserted without a time. -/
theorem TimerInv.delete (inv : TimerInv P s log)
    (he : (∃ x ∈ pendingEvents log, x.event = e) ∨ e ∈ parkedEvents log) :
    TimerInv P (timerDelete s e) (log ++ [.deleted e]) := by
  rcases he with ⟨x, hx, rfl⟩ | he
  · exact inv.remove hx (fun _ => rfl) (fun _ => rfl) (fun _ => rfl) trivial
  · obtain ⟨hself, hout⟩ := inv.parked e he
    have hsame : timerDelete s e = s := by
      unfold timerDelete
      rw [show queRemove (.tmeb e) s.que = s.que from unlink_of_self hself]
    have hpend : pendingEvents (log ++ [.deleted e]) = pendingEvents log := by
      rw [pendingEvents_concat]
      exact List.filter_eq_self.mpr fun y hy => decide_eq_true (hout y hy)
    have hpark : parkedEvents (log ++ [.deleted e]) = parkedEvents log := parkedEvents_concat ..
    have hclock : clockOf (log ++ [.deleted e]) = clockOf log := clockOf_concat ..
    rw [hsame]
    exact ⟨hpend ▸ inv.queue, hpend ▸ inv.blocks, hpend ▸ inv.inClock, hpend ▸ hpark ▸ inv.parked,
      hclock ▸ inv.clock, hclock ▸ inv.clock_in, inv.right.concat trivial⟩

/-- **Expiry**: the first event of the queue is taken off when its time has been reached. -/
theorem TimerInv.fire (inv : TimerInv P s log) (hl : Sorts Entry.time (pendingEvents log) (x :: l))
    (hx : x.time ≤ clockOf log) : TimerInv P (timerDelete s x.event) (log ++ [.fired x]) :=
  inv.remove (hl.mem_iff.mp List.mem_cons_self) (fun _ => rfl) (fun _ => rfl) (fun _ =>
    rfl) ⟨hx, l, hl⟩

theorem TimerInv.tick (inv : TimerInv P s log) (hP : InClock (clockOf log + P)) :
    TimerInv P { s with current_time := llAdd s.current_time P }
      (log ++ [.ticked (clockOf log + P)]) := by
  have hnow : llAdd s.current_time P = clockOf log + P := by
    obtain ⟨h₁, h₂⟩ := hP
    rw [inv.clock]
    exact longlong_eq (by omega) h₂
  have hpend : pendingEvents (log ++ [.ticked (clockOf log + P)]) = pendingEvents log :=
    pendingEvents_concat ..
  have hpark : parkedEvents (log ++ [.ticked (clockOf log + P)]) = parkedEvents log :=
    parkedEvents_concat ..
  have hclock : clockOf (log ++ [.ticked (clockOf log + P)]) = clockOf log + P := clockOf_concat ..
  exact ⟨hpend ▸ inv.queue, hpend ▸ inv.blocks, hpend ▸ inv.inClock, hpend ▸ hpark ▸ inv.parked,
    hnow.trans hclock.symm, hclock.symm ▸ hP, inv.right.concat rfl⟩

theorem TimerInv.tickEnd (inv : TimerInv P s log)
    (h : ∀ x ∈ pendingEvents log, clockOf log < x.time) :
    TimerInv P s (log ++ [.tickEnd]) := by
  have hpend : pendingEvents (log ++ [.tickEnd]) = pendingEvents log := pendingEvents_concat ..
  have hpark : parkedEvents (log ++ [.tickEnd]) = parkedEvents log := parkedEvents_concat ..
  have hclock : clockOf (log ++ [.tickEnd]) = clockOf log := clockOf_concat ..
  exact ⟨hpend ▸ inv.queue, hpend ▸ inv.blocks, hpend ▸ inv.inClock, hpend ▸ hpark ▸ inv.parked,
    hclock ▸ inv.clock, hclock ▸ inv.clock_in, inv.right.concat h⟩

end Inv

end SmpTKernel
