import SmpTKernel.Handler

/-!
# The queues of timer event blocks

The timer queue and the handler queues are rings through the event blocks. Each routine moves one
event: it takes it out of the queue it is in, or puts it into one, and leaves the blocks of the
others alone.
-/

namespace SmpTKernel

open LinkRing Fuel

/-- Where the queues and the events lie. -/
def timerQueues : Layout TimerNode TimerQue Tmeb where
  head := .que
  elem := .tmeb
  head_inj _ _ h := TimerNode.que.inj h
  elem_inj _ _ h := TimerNode.tmeb.inj h
  head_ne_elem _ _ h := TimerNode.noConfusion h

/-- The queues of a board with `maxProc` processors. -/
def LiveQue (maxProc : ℕ) : TimerQue → Prop
  | .timerQueue => True
  | .hdrque prid => prid < maxProc

abbrev EventRings (maxProc : ℕ) (m : Links TimerNode) (q : TimerQue → List Tmeb) : Prop :=
  Rings timerQueues m (LiveQue maxProc) q

variable {maxProc fuel prid arg : ℕ} {s s' s'' : Timer} {q q' q'' : TimerQue → List Tmeb}
  {e x : Tmeb} {d d' : Option TimerQue} {h : TimerQue} {cback : Cback}

/-! ## Moves -/

/-- The event `e` has moved to the queue `d`, or out of all queues. -/
structure Moves (maxProc : ℕ) (e : Tmeb) (d : Option TimerQue) (s : Timer)
    (q : TimerQue → List Tmeb) (s' : Timer) (q' : TimerQue → List Tmeb) : Prop where
  rings : EventRings maxProc s'.que q'
  place : ∀ h, e ∈ q' h ↔ d = some h
  other : ∀ h x, x ≠ e → (x ∈ q' h ↔ x ∈ q h)
  callback : ∀ x, x ≠ e → s'.callback x = s.callback x
  arg : ∀ x, x ≠ e → s'.arg x = s.arg x
  /-- Events in no queue keep their links. -/
  cell : ∀ x, x ≠ e → (∀ h, x ∉ q h) → s'.que (.tmeb x) = s.que (.tmeb x)

theorem Moves.trans (m : Moves maxProc e d s q s' q') (m' : Moves maxProc e d' s' q' s'' q'') :
    Moves maxProc e d' s q s'' q'' := by
  refine ⟨m'.rings, m'.place, fun h x hx => (m'.other h x hx).trans (m.other h x hx),
    fun x hx => (m'.callback x hx).trans (m.callback x hx), fun x hx =>
      (m'.arg x hx).trans (m.arg x hx),
    fun x hx hq => (m'.cell x hx fun h hc => ?_).trans (m.cell x hx hq)⟩
  exact hq h ((m.other h x hx).mp hc)

theorem mem_update_insert {a b : List Tmeb} (hq : q h = a ++ b) (hx : x ≠ e) (h' : TimerQue) :
    x ∈ Function.update q h (a ++ e :: b) h' ↔ x ∈ q h' := by
  by_cases hh : h' = h
  · subst hh
    rw [Function.update_self, hq, List.mem_append, List.mem_append, List.mem_cons, or_iff_right hx]
  · rw [Function.update_of_ne hh]

theorem update_insert_place {a b : List Tmeb} (he : ∀ h, e ∉ q h) (h' : TimerQue) :
    e ∈ Function.update q h (a ++ e :: b) h' ↔ some h = some h' := by
  by_cases hh : h' = h
  · subst hh
    rw [Function.update_self]
    exact iff_of_true (List.mem_append_right a List.mem_cons_self) rfl
  · rw [Function.update_of_ne hh]
    exact iff_of_false (he h') fun hc => hh (Option.some.inj hc).symm

/-- The cell of an event that is in no queue is not in the ring of one. -/
theorem not_mem_ring {l : List Tmeb} (hx : x ∉ l) :
    TimerNode.tmeb x ∉ TimerNode.que h :: l.map .tmeb :=
  fun hc => hx ((timerQueues.elem_mem (h := h)).mp hc)

theorem moves_insert {a b : List Tmeb} (r : EventRings maxProc s.que q) (hlive : LiveQue maxProc h)
    (hq : q h = a ++ b) (he : ∀ h, e ∉ q h)
    (hs' : s'.que = queInsert (.tmeb e) ((b.map .tmeb).headD (.que h)) s.que)
    (hcallback : ∀ x, x ≠ e → s'.callback x = s.callback x)
    (harg : ∀ x, x ≠ e → s'.arg x = s.arg x) :
    Moves maxProc e (some h) s q s' (Function.update q h (a ++ e :: b)) := by
  refine ⟨?_, update_insert_place he, fun h' x hx => mem_update_insert hq hx h', hcallback, harg,
    fun x hx hxq => ?_⟩
  · rw [hs']
    exact r.insertBefore hlive hq he
  · have ring := r.ring h hlive
    rw [hq, List.map_append] at ring
    have hnot (y : Tmeb) (hy : ∀ h, y ∉ q h) :
        TimerNode.tmeb y ∉ TimerNode.que h :: (a.map .tmeb ++ b.map .tmeb) := by
      rw [← List.map_append, ← hq]
      exact not_mem_ring (hy h)
    rw [hs']
    exact ring.insertBefore_frame (hnot e he) (hnot x hxq) fun hc => hx (TimerNode.tmeb.inj hc)

theorem timerDelete_moves (r : EventRings maxProc s.que q) (he : e ∈ q h) :
    ∃ q', Moves maxProc e none s q (timerDelete s e) q' := by
  obtain ⟨a, b, hq⟩ := List.append_of_mem he
  refine ⟨Function.update q h (a ++ b), r.unlink hq, fun h' => ?_, fun h' x hx => ?_, fun _ _ =>
    rfl, fun _ _ => rfl, fun x hx hxq => ?_⟩
  · exact iff_of_false (r.not_mem_of_unlink hq h') (Option.some_ne_none h').symm
  · by_cases hh : h' = h
    · subst hh
      rw [Function.update_self, hq, List.mem_append, List.mem_append, List.mem_cons,
        or_iff_right hx]
    · rw [Function.update_of_ne hh]
  · have ring := r.ring h (r.live_of_mem he)
    rw [hq, List.map_append, List.map_cons] at ring
    apply ring.unlink_frame
    rw [← List.map_append]
    apply not_mem_ring
    intro hc
    apply hxq h
    rw [hq, List.mem_append, List.mem_cons]
    exact (List.mem_append.mp hc).imp id Or.inr

/-! ## Insertion at a time -/

/-- The loop of `enqueue_tmeb` ends before an event of the queue or at its end. -/
theorem enqueuePlace_place (r : EventRings maxProc s.que q) (e : Tmeb) {b : List Tmeb} :
    ∀ {a : List Tmeb}, q .timerQueue = a ++ b →
      ∃ a' b', q .timerQueue = a' ++ b' ∧
        Returns (fun fuel => enqueuePlace s e fuel ((b.map .tmeb).headD (.que .timerQueue)))
          ((b'.map .tmeb).headD (.que .timerQueue)) := by
  induction b with
  | nil =>
    intro a hq
    refine ⟨a, [], hq, 1, fun fuel hf => ?_⟩
    obtain ⟨n, rfl⟩ := Nat.exists_eq_add_of_le' hf
    rfl
  | cons y b ih =>
    intro a hq
    have hnext : (s.que (.tmeb y)).next = (b.map .tmeb).headD (.que .timerQueue) := r.next_elem hq
    by_cases hlt : llCmp (s.time e) (s.time y) < 0
    · refine ⟨a, y :: b, hq, 1, fun fuel hf => ?_⟩
      obtain ⟨n, rfl⟩ := Nat.exists_eq_add_of_le' hf
      exact if_pos hlt
    · have hq' : q .timerQueue = (a ++ [y]) ++ b := by
        rw [hq, List.append_assoc, List.singleton_append]
      obtain ⟨a', b', hab, hret⟩ := ih hq'
      refine ⟨a', b', hab, hret.turn fun fuel => ?_⟩
      show (if llCmp (s.time e) (s.time y) < 0 then _ else enqueuePlace s e fuel
        (s.que (.tmeb y)).next) = _
      rw [if_neg hlt, hnext]

theorem timerInsertAbs_moves (r : EventRings maxProc s.que q) (he : ∀ h, e ∉ q h) (time : ℤ)
    (cback : Option Cback) (arg : ℕ) :
    ∃ s' q', Returns (fun fuel => timerInsertAbs fuel s e time cback arg) s' ∧
      Moves maxProc e (some .timerQueue) s q s' q' ∧ s'.callback e = cback ∧ s'.arg e = arg ∧
      s'.handler_queue = s.handler_queue := by
  have hhead : (s.que (.que .timerQueue)).next = ((q .timerQueue).map .tmeb).headD
      (.que .timerQueue) :=
    r.next_head (h := .timerQueue) trivial
  obtain ⟨a, b, hq, hret⟩ :=
    @enqueuePlace_place maxProc ((s.setCallback e cback arg).setTime e time) q r e
    (q .timerQueue) [] rfl
  have hplace := hret.map fun place : TimerNode =>
    ({ (s.setCallback e cback arg).setTime e time with que := queInsert (.tmeb e) place s.que } :
      Timer)
  refine ⟨_, _, hplace.congr fun fuel => ?_, moves_insert r trivial hq he rfl
    (fun x hx => Function.update_of_ne hx _ _) fun x hx => Function.update_of_ne hx _ _,
    Function.update_self .., Function.update_self .., rfl⟩
  show (enqueuePlace ((s.setCallback e cback arg).setTime e time) e fuel
    (s.que (.que .timerQueue)).next).map _ = _
  rw [hhead]
  rfl

theorem enqueueHandler_moves (r : EventRings maxProc s.que q) (he : ∀ h, e ∉ q h)
    (hprid : prid < maxProc) (cback : Cback) (arg : ℕ) :
    ∃ q', Moves maxProc e (some (.hdrque prid)) s q (enqueueHandler prid e cback arg s) q' :=
  ⟨_, moves_insert (a := q (.hdrque prid)) (b := []) r hprid (List.append_nil _).symm he rfl
    (fun _ hx => Function.update_of_ne hx _ _) fun _ hx => Function.update_of_ne hx _ _⟩

theorem enqueueHandler_callback : (enqueueHandler prid e cback arg s).callback e = some cback :=
  Function.update_self ..

theorem enqueueHandler_arg : (enqueueHandler prid e cback arg s).arg e = arg :=
  Function.update_self ..

theorem enqueueHandler_queue : (enqueueHandler prid e cback arg s).handler_queue =
    Function.update s.handler_queue prid { s.handler_queue prid with upd := true } := rfl

/-! ## The update of the handler queues -/

/-- The processors with new handlers that do not execute handlers yet. -/
def Timer.isNew (s : Timer) (i : ℕ) : Prop :=
  (s.handler_queue i).upd = true ∧ (s.handler_queue i).act = false

/-- The effect of the check on the first `n` queues. -/
structure Checked (n : ℕ) (s : Timer) (assprc : BitVec 32) (hq : ℕ → Hdrque) : Prop where
  rest : ∀ i, n ≤ i → hq i = s.handler_queue i
  upd : ∀ i < n, (hq i).upd = false
  act : ∀ i < n, (hq i).act = true ↔ (s.handler_queue i).act = true ∨ s.isNew i
  new : ∀ i < 32, assprc.getLsbD i = true ↔ i < n ∧ s.isNew i

theorem setBit_getLsbD (assprc : BitVec 32) {i n : ℕ} (hi : i < 32) :
    (assprc ||| 1#32 <<< n).getLsbD i = true ↔ assprc.getLsbD i = true ∨ i = n := by
  rw [BitVec.getLsbD_or, BitVec.getLsbD_shiftLeft, Bool.or_eq_true]
  apply or_congr_right
  simp only [hi, BitVec.getLsbD_one, decide_true, Bool.true_and, Bool.and_eq_true,
    Bool.not_eq_true', decide_eq_false_iff_not, decide_eq_true_eq]
  omega

theorem Checked.next {n : ℕ} {assprc : BitVec 32} {hq : ℕ → Hdrque} (c : Checked n s assprc hq) :
    let new := (hq n).upd && !(hq n).act
    Checked (n + 1) s (if new then assprc ||| 1#32 <<< n else assprc)
      (Function.update hq n ⟨false, if new then true else (hq n).act⟩) := by
  have hn : hq n = s.handler_queue n := c.rest n le_rfl
  have hnew : ((hq n).upd && !(hq n).act) = true ↔ s.isNew n := by
    rw [hn, Bool.and_eq_true, Bool.not_eq_true']
    rfl
  intro new
  refine ⟨fun i hi => ?_, fun i hi => ?_, fun i hi => ?_, fun i hi => ?_⟩
  · rw [Function.update_of_ne (by omega)]
    exact c.rest i (by omega)
  · by_cases hin : i = n
    · subst hin
      rw [Function.update_self]
    · rw [Function.update_of_ne hin]
      exact c.upd i (by omega)
  · by_cases hin : i = n
    · subst hin
      rw [Function.update_self, ← hnew, ← hn]
      show (if new = true then true else (hq i).act) = true ↔ _ ∨ new = true
      cases new
      · exact (or_iff_left Bool.false_ne_true).symm
      · exact iff_of_true rfl (Or.inr rfl)
    · rw [Function.update_of_ne hin]
      exact c.act i (by omega)
  · by_cases hnw : new = true
    · rw [if_pos hnw, setBit_getLsbD assprc hi, c.new i hi]
      constructor
      · rintro (⟨hlt, hi⟩ | rfl)
        · exact ⟨by omega, hi⟩
        · exact ⟨by omega, hnew.mp hnw⟩
      · rintro ⟨hlt, hi⟩
        rcases Nat.lt_succ_iff_lt_or_eq.mp hlt with hlt | rfl
        · exact Or.inl ⟨hlt, hi⟩
        · exact Or.inr rfl
    · rw [if_neg hnw, c.new i hi]
      constructor
      · rintro ⟨hlt, hi⟩
        exact ⟨by omega, hi⟩
      · rintro ⟨hlt, hi⟩
        rcases Nat.lt_succ_iff_lt_or_eq.mp hlt with hlt | rfl
        · exact ⟨hlt, hi⟩
        · exact absurd (hnew.mpr hi) hnw

/-- After the check the update of every queue is noted, and `act` is set where handlers are new. -/
theorem checkHandlerQueue_checked (n : ℕ) (s : Timer) :
    ∃ hq, (checkHandlerQueue n s).2 = { s with handler_queue := hq } ∧
      Checked n s (checkHandlerQueue n s).1 hq := by
  unfold checkHandlerQueue
  induction n with
  | zero =>
    refine ⟨s.handler_queue, rfl, fun _ _ => rfl, fun i hi => absurd hi (Nat.not_lt_zero i),
      fun i hi => absurd hi (Nat.not_lt_zero i), fun i _ => ?_⟩
    exact iff_of_false (by simp) fun hc => Nat.not_lt_zero i hc.1
  | succ n ih =>
    obtain ⟨hq, hs, hc⟩ := ih
    rw [List.range_succ, List.foldl_append]
    have hnext := hc.next
    dsimp only [List.foldl_cons, List.foldl_nil] at hnext ⊢
    rw [hs]
    exact ⟨_, rfl, hnext⟩

end SmpTKernel
