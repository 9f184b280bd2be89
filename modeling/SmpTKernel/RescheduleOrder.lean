import SmpTKernel.Lib.MoveLast
import SmpTKernel.Reschedule

/-!
# The order that time slices leave

`reschedule` puts running tasks whose processors it gives to others at the end of their queues when
their time slices are over, one processor after the other. The queues are then the same as before
exactly if these tasks already stood at the ends of their queues, in the order of the processors.
-/

namespace SmpTKernel

open LinkRing MoveLast

variable {numProc : ℕ} {live : QHead → Prop} {Q Q' : QHead → List Tsk} {c : Core} {sl : Slices}
  {u : Cpus} {t v : Tsk} {p n : ℕ} {toptsk schedtsk : ℕ → Option Tsk} {chosen : List Tsk}

/-- The task stands at the end of its queue, wherever that is. -/
def lastIn (Q : QHead → List Tsk) (t : Tsk) : QHead → List Tsk := fun h => moveLast (Q h) t

/-- One task after the other. -/
def allLastIn (Q : QHead → List Tsk) (ts : List Tsk) : QHead → List Tsk := ts.foldl lastIn Q

theorem mem_lastIn {h : QHead} : v ∈ lastIn Q t h ↔ v ∈ Q h := mem_moveLast

theorem mem_allLastIn {ts : List Tsk} {h : QHead} : v ∈ allLastIn Q ts h ↔ v ∈ Q h := by
  induction ts generalizing Q with
  | nil => exact Iff.rfl
  | cons t ts ih => exact ih.trans mem_lastIn

theorem ReadyInv.lastIn_eq (r : ReadyInv numProc live Q c) {a b : List Tsk}
    (e : Q (.rdy p) = a ++ t :: b) : lastIn Q t = Function.update Q (.rdy p) (a ++ b ++ [t]) := by
  funext h
  have ht : t ∈ Q (.rdy p) := e ▸ List.mem_append_right a List.mem_cons_self
  by_cases hh : h = .rdy p
  · have nd := r.rings.nodup (.rdy p)
    rw [hh, Function.update_self]
    unfold lastIn
    rw [e] at nd ⊢
    exact moveLast_mid nd
  · rw [Function.update_of_ne hh]
    exact moveLast_of_not_mem fun hth => hh (r.rings.disj _ _ t hth ht)

theorem ReadyInv.lastIn (r : ReadyInv numProc live Q c) (ht : t ∈ Q (.rdy p)) :
    ReadyInv numProc live (lastIn Q t) (readyQueueMoveLast numProc c t).2 := by
  obtain ⟨a, b, e⟩ := List.append_of_mem ht
  rw [r.lastIn_eq e]
  exact r.moveLast e

theorem ReadyInv.lastIn_eq_self_iff (r : ReadyInv numProc live Q c) {a b : List Tsk}
    (e : Q (.rdy p) = a ++ t :: b) : SmpTKernel.lastIn Q t = Q ↔ b = [] := by
  rw [r.lastIn_eq e]
  constructor
  · intro h
    have hp := congrFun h (.rdy p)
    have nd := r.rings.nodup (.rdy p)
    rw [e] at nd
    rw [Function.update_self, e, List.append_assoc] at hp
    have htail := List.append_cancel_left hp
    cases b with
    | nil => rfl
    | cons v b =>
      obtain ⟨rfl, -⟩ := List.cons.inj htail
      exact absurd (List.mem_append_right a List.mem_cons_self)
        (List.nodup_cons.mp (List.nodup_middle.mp nd)).1
  · rintro rfl
    rw [List.append_nil, ← e, Function.update_eq_self]

theorem ReadyInv.moveLast_flag (r : ReadyInv numProc live Q c) {a b : List Tsk}
    (e : Q (.rdy p) = a ++ t :: b) : (readyQueueMoveLast numProc c t).1 = decide (b ≠ []) := by
  have hp := r.priority p t (e ▸ List.mem_append_right a List.mem_cons_self)
  have hnext := r.rings.next_elem e
  rw [queues_elem, queues_head] at hnext
  unfold readyQueueMoveLast
  rw [hp, hnext]
  cases b with
  | nil => rw [if_neg (by simp)]; rfl
  | cons v b => rw [if_pos (by simp)]; rfl

/-- Rotation moves the head of the queue in the same way, and marks the change. -/
theorem ReadyInv.rotate_eq (r : ReadyInv numProc live Q c) (hp : p < NUM_PRI) {b : List Tsk}
    (e : Q (.rdy p) = t :: b) : readyQueueRotate numProc c p =
      if b = [] then (readyQueueMoveLast numProc c t).2
      else { (readyQueueMoveLast numProc c t).2 with ready_queue.chg := true } := by
  have hpri := r.priority p t (e ▸ List.mem_cons_self)
  have hhead := r.rings.next_head (r.live_of_lt hp)
  have hnext := r.rings.next_elem (a := []) e
  rw [e, queues_head] at hhead
  rw [queues_elem, queues_head] at hnext
  have hfirst : (c.que (.que (.rdy p))).next = .tsk t := hhead
  unfold readyQueueRotate readyQueueMoveLast
  rw [if_neg fun h => by simpa [e] using (r.isQueEmpty_iff hp).mp h, hfirst, hnext, hpri]
  cases b with
  | nil =>
    rw [if_neg (by simp), if_pos rfl, if_neg (by simp)]
  | cons v b =>
    have hrem : queRemoveNext (.que (.rdy p)) c.que = (.tsk t, queRemove (.tsk t) c.que) := by
      have hring := r.rings.ring _ (r.live_of_lt hp)
      rw [e] at hring
      exact queRemoveNext_eq hring
    rw [if_pos (by simp), if_neg (List.cons_ne_nil v b), hrem, if_pos (by simp)]
    rfl

/-- The links and the lists of the tasks determine each other. -/
theorem ReadyInv.unique (r : ReadyInv numProc live Q c) (r' : ReadyInv numProc live Q' c) :
    Q = Q' :=
  r.rings.unique r'.rings

/-! ## Time slices -/

/-- The tick that is counted ends the time slice. -/
def sliceOver (sl : Slices) (c : Core) (t : Tsk) : Bool :=
  0 < sl.slicetime t ∧ sl.slicetime t < ((c.tcb t).slicecnt + sl.TIMER_PERIOD) % 2 ^ 32

theorem ReadyInv.timeSlice (r : ReadyInv numProc live Q c) (sl : Slices) (ht : t ∈ Q (.rdy p)) :
    ReadyInv numProc live (if sliceOver sl c t then SmpTKernel.lastIn Q t else Q)
      (timeSliceSchedule numProc sl c (some t)).2 := by
  have hcount := (Reselected.slicecnt (u := ⟨fun _ => none, fun _ => 0⟩) r t
    (((c.tcb t).slicecnt + sl.TIMER_PERIOD) % 2 ^ 32)).ready
  unfold timeSliceSchedule sliceOver
  dsimp only
  by_cases hslice : sl.slicetime t > 0
  · rw [if_pos hslice]
    simp only [Function.update_self]
    by_cases hover : ((c.tcb t).slicecnt + sl.TIMER_PERIOD) % 2 ^ 32 > sl.slicetime t
    · rw [if_pos hover, if_pos (decide_eq_true ⟨hslice, hover⟩)]
      exact hcount.lastIn ht
    · rw [if_neg hover, if_neg fun h => hover (of_decide_eq_true h).2]
      exact hcount
  · rw [if_neg hslice, if_neg fun h => hslice (of_decide_eq_true h).1]
    exact r

theorem timeSliceSchedule_tcb (sl : Slices) (c : Core) (hv : v ≠ t) :
    (timeSliceSchedule numProc sl c (some t)).2.tcb v = c.tcb v := by
  unfold timeSliceSchedule readyQueueMoveLast clearSlicecnt
  dsimp only
  split_ifs <;> simp [Function.update_of_ne hv]

/-- The tasks that `reschedule` puts at the end of their queues, by processor: in execution as
scheduled, not among those that are `chosen` now, and over their time slices. -/
def sliceEnded (sl : Slices) (u : Cpus) (schedtsk : ℕ → Option Tsk) (c : Core) (chosen : List Tsk)
    (n : ℕ) : List Tsk :=
  (List.range n).filterMap fun i =>
    (schedtsk i).filter fun t => u.ctxtsk i = some t ∧ t ∉ chosen ∧ sliceOver sl c t

theorem sliceEnded_succ : sliceEnded sl u schedtsk c chosen (n + 1) =
    sliceEnded sl u schedtsk c chosen n ++ ((schedtsk n).filter fun t =>
      u.ctxtsk n = some t ∧ t ∉ chosen ∧ sliceOver sl c t).toList := by
  unfold sliceEnded
  rw [List.range_succ, List.filterMap_append, List.filterMap_cons, List.filterMap_nil]
  cases (schedtsk n).filter fun t => u.ctxtsk n = some t ∧ t ∉ chosen ∧ sliceOver sl c t <;> rfl

theorem mem_sliceEnded (ht : t ∈ sliceEnded sl u schedtsk c chosen n) :
    t ∉ chosen ∧ ∃ i < n, schedtsk i = some t := by
  obtain ⟨i, hi, hit⟩ := List.mem_filterMap.mp ht
  obtain ⟨hit, hcond⟩ := Option.filter_eq_some_iff.mp hit
  exact ⟨(of_decide_eq_true hcond).2.1, i, List.mem_range.mp hi, hit⟩

/-- The loop of `reschedule`, by the number of processors it has gone through. -/
structure Turned (numProc : ℕ) (live : QHead → Prop) (Q : QHead → List Tsk) (sl : Slices) (u : Cpus)
    (schedtsk : ℕ → Option Tsk) (c : Core) (chosen : List Tsk) (n : ℕ) (st : Schedule) : Prop where
  ready : ReadyInv numProc live (allLastIn Q (sliceEnded sl u schedtsk c chosen n)) st.core
  later : ∀ i, n ≤ i → st.schedtsk i = schedtsk i
  slicecnt : ∀ t, (∀ i < n, schedtsk i ≠ some t) → (st.core.tcb t).slicecnt = (c.tcb t).slicecnt

theorem Turned.turn {st : Schedule} (h : Turned numProc live Q sl u schedtsk c chosen n st)
    (hn : n < numProc)
    (hinj : ∀ i < numProc, ∀ j < numProc, ∀ t, schedtsk i = some t → schedtsk j = some t → i = j)
    (hsched : ∀ t, schedtsk n = some t → ∃ p, t ∈ Q (.rdy p))
    (hchosen : ∀ t, (∃ i < numProc, toptsk i = some t) ↔ t ∈ chosen) :
    Turned numProc live Q sl u schedtsk c chosen (n + 1) (rescheduleTurn numProc sl u toptsk
      st n) := by
  have hst : st.schedtsk n = schedtsk n := h.later n le_rfl
  have hlater (i : ℕ) (hi : n + 1 ≤ i) : (rescheduleTurn numProc sl u toptsk st n).schedtsk i =
      schedtsk i :=
    (Function.update_of_ne (by omega) _ _).trans (h.later i (by omega))
  cases htn : schedtsk n with
  | none =>
    have hcore : (rescheduleTurn numProc sl u toptsk st n).core = st.core := by
      unfold rescheduleTurn
      dsimp only
      rw [hst, htn]
      split_ifs <;> rfl
    refine ⟨?_, hlater, fun t ht => ?_⟩
    · rw [sliceEnded_succ, htn, hcore]
      simpa using h.ready
    · rw [hcore]
      exact h.slicecnt t fun i hi => ht i (hi.trans n.lt_succ_self)
  | some t =>
    obtain ⟨p, hp⟩ := hsched t htn
    -- nobody else has counted for the task
    have hcnt : (st.core.tcb t).slicecnt = (c.tcb t).slicecnt :=
      h.slicecnt t fun i hi hit => hi.ne (hinj i (hi.trans hn) n hn t hit htn)
    have hover : sliceOver sl st.core t = sliceOver sl c t := by
      unfold sliceOver
      rw [hcnt]
    by_cases hmove : u.ctxtsk n = some t ∧ t ∉ chosen
    · have hcore : (rescheduleTurn numProc sl u toptsk st n).core =
          (timeSliceSchedule numProc sl st.core (some t)).2 := by
        have hout : isElement numProc (some t) toptsk ≠ true := fun hel => by
          obtain ⟨i, hi, hit⟩ := List.any_eq_true.mp hel
          exact hmove.2 ((hchosen t).mp ⟨i, List.mem_range.mp hi, of_decide_eq_true hit⟩)
        unfold rescheduleTurn
        dsimp only
        rw [hst, htn, hmove.1, if_pos ⟨rfl, hout⟩]
      refine ⟨?_, hlater, fun v hv => ?_⟩
      · have hready := h.ready.timeSlice sl (mem_allLastIn.mpr hp)
        rw [hcore, sliceEnded_succ, htn]
        rw [hover] at hready
        by_cases hend : sliceOver sl c t = true
        · rw [if_pos hend] at hready
          rw [Option.filter_some_pos (by simp [hmove, hend])]
          unfold allLastIn
          rw [List.foldl_append]
          exact hready
        · rw [if_neg hend] at hready
          rw [Option.filter_some_neg (by simp [hend])]
          simpa using hready
      · have hvt : v ≠ t := fun hvt => hv n n.lt_succ_self (htn.trans (congrArg some hvt.symm))
        rw [hcore, timeSliceSchedule_tcb sl st.core hvt]
        exact h.slicecnt v fun i hi => hv i (hi.trans n.lt_succ_self)
    · have hcore : (rescheduleTurn numProc sl u toptsk st n).core = st.core := by
        unfold rescheduleTurn
        dsimp only
        rw [hst, htn, if_neg]
        rintro ⟨hctx, hel⟩
        refine hmove ⟨hctx.symm, fun hin => hel ?_⟩
        obtain ⟨i, hi, hit⟩ := (hchosen t).mpr hin
        exact List.any_eq_true.mpr ⟨i, List.mem_range.mpr hi, decide_eq_true (hit.trans hctx)⟩
      refine ⟨?_, hlater, fun v hv => ?_⟩
      · rw [hcore, sliceEnded_succ, htn, Option.filter_some_neg
          (by simpa using fun h h' => absurd ⟨h, h'⟩ hmove)]
        simpa using h.ready
      · rw [hcore]
        exact h.slicecnt v fun i hi => hv i (hi.trans n.lt_succ_self)

theorem Turned.turns (r : ReadyInv numProc live Q c)
    (hinj : ∀ i < numProc, ∀ j < numProc, ∀ t, schedtsk i = some t → schedtsk j = some t → i = j)
    (hsched : ∀ i < numProc, ∀ t, schedtsk i = some t → ∃ p, t ∈ Q (.rdy p))
    (hchosen : ∀ t, (∃ i < numProc, toptsk i = some t) ↔ t ∈ chosen) (hn : n ≤ numProc) :
    Turned numProc live Q sl u schedtsk c chosen n
      ((List.range n).foldl (rescheduleTurn numProc sl u toptsk) ⟨c, schedtsk⟩) := by
  induction n with
  | zero => exact ⟨r, fun _ _ => rfl, fun _ _ => rfl⟩
  | succ n ih =>
    rw [List.range_succ, List.foldl_append]
    exact (ih (Nat.le_of_succ_le hn)).turn hn hinj (hsched n hn) hchosen

/-- What `reschedule` leaves of the queues. -/
theorem ReadyInv.reschedule {st : Schedule} {fuel : ℕ} (r : ReadyInv numProc live Q st.core)
    (hinj : ∀ i < numProc, ∀ j < numProc, ∀ t, st.schedtsk i = some t → st.schedtsk j = some t →
      i = j) (hsched : ∀ i < numProc, ∀ t, st.schedtsk i = some t → ∃ p, t ∈ Q (.rdy p))
    (htop : Selects numProc st.core u fuel toptsk)
    (hchosen : ∀ t, (∃ i < numProc, toptsk i = some t) ↔ t ∈ chosen) :
    ∃ req st', reschedule numProc sl u fuel st = some (req, st') ∧
      ReadyInv numProc live (allLastIn Q (sliceEnded sl u st.schedtsk st.core chosen numProc))
        st'.core ∧
      st'.core.ready_queue.chg = false := by
  let c₁ : Core := { st.core with ready_queue.chg := false }
  have r₁ : ReadyInv numProc live Q c₁ :=
    ⟨⟨r.rings, r.live_rdy, r.priority, r.klockwait⟩, r.bitmap, r.top⟩
  have hcall : SmpTKernel.reschedule numProc sl u fuel st = some
      (if isChangeSchedule numProc st.schedtsk toptsk then
        (true, (List.range numProc).foldl (rescheduleTurn numProc sl u toptsk) ⟨c₁, st.schedtsk⟩)
      else (false, ⟨c₁, st.schedtsk⟩)) := congrArg (Option.map _) htop
  by_cases hchange : isChangeSchedule numProc st.schedtsk toptsk = true
  · rw [if_pos hchange] at hcall
    exact ⟨_, _, hcall, (Turned.turns r₁ hinj hsched hchosen le_rfl).ready, rescheduleTurns_chg ..⟩
  · -- every task that is scheduled is chosen again
    have hnone : sliceEnded sl u st.schedtsk st.core chosen numProc = [] := by
      refine List.eq_nil_iff_forall_not_mem.mpr fun t ht => ?_
      obtain ⟨hout, i, hi, hit⟩ := mem_sliceEnded ht
      have hsame : st.schedtsk i = toptsk i := by
        by_contra hne
        exact hchange (List.any_eq_true.mpr ⟨i, List.mem_range.mpr hi, decide_eq_true hne⟩)
      exact hout ((hchosen t).mp ⟨i, hi, hsame.symm.trans hit⟩)
    rw [if_neg hchange] at hcall
    rw [hnone]
    exact ⟨_, _, hcall, r₁, rfl⟩

/-- The tasks kept by the loop of `ready_queue_top` are those of the greedy selection. -/
theorem ReadyInv.selection_eq (r : ReadyInv numProc live Q c) (hn : numProc ≤ MAX_PROC)
    (hm : ∀ t ∈ ordered (rdyQ Q), MaskOk numProc c t)
    (hctx : ∀ t ∈ ordered (rdyQ Q), CtxOk numProc c u t) :
    (selection numProc c u (ordered (rdyQ Q))).1 = greedy (mayRunOn numProc c u) numProc []
    (ordered (rdyQ Q)) := by
  obtain ⟨s, hs, hsel, -⟩ := r.selects hn hm hctx (Nat.lt_succ_self _)
  have w : Window numProc (ordered (rdyQ Q)) (((startSelection c).withTop fun _ =>
    none).withTop c.ready_queue.top) []
      (ordered (rdyQ Q)) := ⟨⟨[], rfl, List.Sublist.refl []⟩, Nat.zero_le _, fun k hk => r.top k hk⟩
  obtain ⟨top, hs', htop, -⟩ :=
    selectTop_list (u := u) r.toReadyLinks r.bitmap _ _ [] _ _ w (Nat.lt_succ_self _)
  have hs'' : s = (selection numProc c u (ordered (rdyQ Q))).2.withTop top :=
    Option.some.inj (hs.symm.trans hs')
  have hlen : (selection numProc c u (ordered (rdyQ Q))).1.length ≤ numProc :=
    length_selectList _ _ _ (Nat.zero_le numProc)
  refine List.ext_getElem? fun k => ?_
  by_cases hk : k < numProc
  · rw [← hsel.top k hk, hs'']
    exact (htop k hk).symm
  · rw [List.getElem?_eq_none (hlen.trans (not_lt.mp hk)), List.getElem?_eq_none
      (hsel.length_le.trans (not_lt.mp hk))]

end SmpTKernel
