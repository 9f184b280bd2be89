import SmpTKernel.ReadyQueuePlace

/-!
# Re-selection and time slices

`task.c`: `reschedule` selects the tasks to execute anew and, before it stores the selection in
`schedtsk[]`, puts running tasks that were not selected and are over their time slice at the end of
their queues. The selection is a fold over the tasks in order of precedence (`selectList`). A task
it passes over is passed over at any later place as well, since what the kept tasks need only grows;
so the selection stored is the one of the queues that are left (`reschedule_selects`).
-/

namespace SmpTKernel

open LinkRing

variable (numProc : ℕ)

/-- `TIMER_PERIOD`, and the `slicetime` of every task. -/
structure Slices where
  TIMER_PERIOD : ℕ
  slicetime : Tsk → ℕ

/-- The ready queue and `schedtsk[]`. -/
structure Schedule where
  core : Core
  schedtsk : ℕ → Option Tsk

/-- Scheduling by time slice; the returned flag says whether the task was moved. -/
def timeSliceSchedule (sl : Slices) (c : Core) (tcb : Option Tsk) : Bool × Core :=
  match tcb with
  | none => (false, c)
  | some t =>
    if sl.slicetime t > 0 then
      let slicecnt := ((c.tcb t).slicecnt + sl.TIMER_PERIOD) % 2 ^ 32
      let c := { c with tcb := Function.update c.tcb t { c.tcb t with slicecnt := slicecnt } }
      if (c.tcb t).slicecnt > sl.slicetime t then readyQueueMoveLast numProc c t else (false, c)
    else (false, c)

/-- Check schedule change. -/
def isChangeSchedule (cur pre : ℕ → Option Tsk) : Bool :=
  (List.range numProc).any fun i => cur i ≠ pre i

/-- Check whether `tcb` is an array element. -/
def isElement (tcb : Option Tsk) (array : ℕ → Option Tsk) : Bool :=
  (List.range numProc).any fun i => array i = tcb

/-- One turn of the loop of `reschedule`: processor `i`. -/
def rescheduleTurn (sl : Slices) (u : Cpus) (toptsk : ℕ → Option Tsk) (s : Schedule) (i : ℕ) :
    Schedule where
  core :=
    if s.schedtsk i = u.ctxtsk i ∧ ¬isElement numProc (u.ctxtsk i) toptsk then
      (timeSliceSchedule numProc sl s.core (s.schedtsk i)).2
    else s.core
  schedtsk := Function.update s.schedtsk i (toptsk i)

/-- Reselect tasks to execute; the returned flag stands for `dispatch_request`. -/
def reschedule (sl : Slices) (u : Cpus) (fuel : ℕ) (s : Schedule) : Option (Bool × Schedule) :=
  (readyQueueTop numProc s.core u fuel).map fun r =>
    if isChangeSchedule numProc s.schedtsk r.1 then
      (true, (List.range numProc).foldl (rescheduleTurn numProc sl u r.1) { s with core := r.2 })
    else (false, { s with core := r.2 })

/-- Update schedtsk. -/
def updateSchedtsk (sl : Slices) (u : Cpus) (fuel : ℕ) (s : Schedule) : Option (Bool × Schedule) :=
  if s.core.ready_queue.chg then reschedule numProc sl u fuel s else some (false, s)

/-! ## The selection as a fold -/

/-- The loop passes over a task of these places. -/
def skips (hist : List ℕ) (bit : ℕ) : Bool :=
  bit = 0 ∨ bit ≠ ALL_CORE_BIT numProc ∧ overbooked numProc hist bit

/-- The loop keeps a task of these places as number `j`. -/
def Selection.take (s : Selection) (j bit : ℕ) : Selection :=
  { s with
    hist := if bit ≠ ALL_CORE_BIT numProc ∧ j ≠ numProc - 1 then histAdd s.hist bit else s.hist
    top_bit := Function.update s.top_bit j bit
    bit_cnt := sumBits numProc s.bit_cnt bit
    assign_num := s.assign_num + 1 }

/-- The loop over a list of tasks, `bits` being their places; `top_tcb[]` is left aside. -/
def selectList (bits : Tsk → ℕ) : List Tsk → List Tsk → Selection → List Tsk × Selection
  | [], chosen, s => (chosen, s)
  | t :: l, chosen, s =>
    if chosen.length < numProc then
      if skips numProc s.hist (bits t) then selectList bits l chosen s
      else selectList bits l (chosen ++ [t]) (s.take numProc chosen.length (bits t))
    else (chosen, s)

variable {numProc} {bits : Tsk → ℕ} {t : Tsk} {l post chosen : List Tsk} {s : Selection}

theorem selectList_full (h : numProc ≤ chosen.length) (l : List Tsk) :
    selectList numProc bits l chosen s = (chosen, s) := by
  cases l with
  | nil => rfl
  | cons t l => exact if_neg (not_lt.mpr h)

theorem selectList_cons : selectList numProc bits (t :: l) chosen s =
    if chosen.length < numProc then
      if skips numProc s.hist (bits t) then selectList numProc bits l chosen s
      else selectList numProc bits l (chosen ++ [t]) (s.take numProc chosen.length (bits t))
    else (chosen, s) := rfl

theorem selectList_append (post : List Tsk) : ∀ (l chosen : List Tsk) (s : Selection),
    selectList numProc bits (l ++ post) chosen s =
      selectList numProc bits post (selectList numProc bits l chosen s).1
        (selectList numProc bits l chosen s).2 := by
  intro l
  induction l with
  | nil => intro chosen s; rfl
  | cons t l ih =>
    intro chosen s
    rw [List.cons_append, selectList_cons, selectList_cons]
    split_ifs with hlt hskip
    · exact ih chosen s
    · exact ih _ _
    · exact (selectList_full (not_lt.mp hlt) post).symm

theorem subset_selectList : ∀ (l chosen : List Tsk) (s : Selection),
    chosen ⊆ (selectList numProc bits l chosen s).1 := by
  intro l
  induction l with
  | nil => intro chosen s; exact List.Subset.refl chosen
  | cons t l ih =>
    intro chosen s
    rw [selectList_cons]
    split_ifs with hlt hskip
    · exact ih chosen s
    · exact List.Subset.trans (List.subset_append_left chosen [t]) (ih _ _)
    · exact List.Subset.refl chosen

theorem length_selectList : ∀ (l chosen : List Tsk) (s : Selection), chosen.length ≤ numProc →
    (selectList numProc bits l chosen s).1.length ≤ numProc := by
  intro l
  induction l with
  | nil => intro chosen s h; exact h
  | cons t l ih =>
    intro chosen s h
    rw [selectList_cons]
    split_ifs with hlt hskip
    · exact ih chosen s h
    · refine ih _ _ ?_
      rw [List.length_append, List.length_singleton]
      exact hlt
    · exact h

theorem skips_take {bit j b : ℕ} (h : skips numProc s.hist bit = true) :
    skips numProc (s.take numProc j b).hist bit = true := by
  unfold skips at h ⊢
  rw [decide_eq_true_iff] at h ⊢
  rcases h with h | ⟨hall, hover⟩
  · exact Or.inl h
  · refine Or.inr ⟨hall, ?_⟩
    obtain ⟨e, he, hlt⟩ := List.any_eq_true.mp hover
    refine List.any_eq_true.mpr ⟨e, ?_, hlt⟩
    show e ∈ if b ≠ ALL_CORE_BIT numProc ∧ j ≠ numProc - 1 then histAdd s.hist b else s.hist
    split_ifs
    · unfold histAdd
      simp [he]
    · exact he

/-- A task that is passed over now could as well not be there later. -/
theorem selectList_skip (post : List Tsk) : ∀ (l chosen : List Tsk) (s : Selection),
    skips numProc s.hist (bits t) = true →
      selectList numProc bits (l ++ t :: post) chosen s = selectList numProc bits (l ++ post)
        chosen s := by
  intro l
  induction l with
  | nil =>
    intro chosen s h
    by_cases hlt : chosen.length < numProc
    · rw [List.nil_append, List.nil_append, selectList_cons, if_pos hlt, if_pos h]
    · rw [selectList_full (not_lt.mp hlt), selectList_full (not_lt.mp hlt)]
  | cons x l ih =>
    intro chosen s h
    rw [List.cons_append, List.cons_append, selectList_cons, selectList_cons]
    split_ifs with hlt hskip
    · exact ih chosen s h
    · exact ih _ _ (skips_take h)
    · rfl

/-- **A task that is not kept can move back.** -/
theorem selectList_move {a b : List Tsk} (post : List Tsk)
    (h : t ∉ (selectList numProc bits (a ++ t :: (b ++ post)) chosen s).1) :
    selectList numProc bits (a ++ (b ++ t :: post)) chosen s =
      selectList numProc bits (a ++ t :: (b ++ post)) chosen s := by
  rw [selectList_append] at h
  rw [selectList_append, selectList_append _ a]
  generalize selectList numProc bits a chosen s = r at h ⊢
  by_cases hlt : r.1.length < numProc
  · by_cases hskip : skips numProc r.2.hist (bits t) = true
    · rw [selectList_skip post b _ _ hskip, selectList_cons, if_pos hlt, if_pos hskip]
    · refine absurd ?_ h
      rw [selectList_cons, if_pos hlt, if_neg hskip]
      exact subset_selectList _ _ _ (by simp)
  · rw [selectList_full (not_lt.mp hlt), selectList_full (not_lt.mp hlt)]

/-! ## The loop of the code -/

variable {c c' : Core} {u : Cpus} {live : QHead → Prop} {Q : QHead → List Tsk} {rest : List Tsk}

/-- `s` with another `top_tcb[]`. -/
def Selection.withTop (s : Selection) (top : ℕ → Option Tsk) : Selection :=
  { s with top_tcb := top }

theorem shiftTop_of_ge {top : ℕ → Option Tsk} {j k : ℕ} (hj : j < numProc) (hk : numProc ≤ k) :
    shiftTop numProc c top j k = top k := by
  have hshift : shiftDown (numProc - 1 - j) j top k = top k := by
    rw [shiftDown_apply, if_neg (by omega)]
  unfold shiftTop
  rcases shiftDown (numProc - 1 - j) j top (numProc - 1) with _ | v
  · exact hshift
  · exact (Function.update_of_ne (by omega) _ _).trans hshift

/-- **The loop is the fold.** It ends, with the kept tasks in `top_tcb[]`. -/
theorem selectTop_list (r : ReadyLinks live Q c) (hb : Marks c.ready_queue.bitmap Q) :
    ∀ (fuel : ℕ) (rest chosen : List Tsk) (s : Selection) (top : ℕ → Option Tsk),
      Window numProc (ordered (rdyQ Q)) (s.withTop top) chosen rest → rest.length < fuel →
      ∃ top', selectTop numProc c u fuel chosen.length (s.withTop top) =
          some ((selectList numProc (placeBits numProc c u) rest chosen s).2.withTop top') ∧
        (∀ i < numProc, top' i = (selectList numProc (placeBits numProc c u) rest chosen s).1[i]?) ∧
        ∀ i, numProc ≤ i → top' i = top i := by
  intro fuel
  induction fuel with
  | zero => intro rest _ _ _ _ hf; exact absurd hf (Nat.not_lt_zero _)
  | succ fuel ih =>
    intro rest chosen s top w hf
    unfold selectTop
    by_cases hlt : chosen.length < numProc
    swap
    · rw [if_neg hlt, selectList_full (not_lt.mp hlt)]
      refine ⟨top, rfl, fun i hi => ?_, fun i _ => rfl⟩
      exact (w.top i hi).trans (List.getElem?_append_left (by omega))
    have htop := w.top _ hlt
    rw [List.getElem?_append_right le_rfl, Nat.sub_self] at htop
    rw [if_pos hlt, htop]
    cases rest with
    | nil =>
      refine ⟨top, rfl, fun i hi => ?_, fun i _ => rfl⟩
      have := w.top i hi
      rwa [List.append_nil] at this
    | cons t rest =>
      have hdrop : Window numProc (ordered (rdyQ Q))
          (s.withTop (shiftTop numProc c top chosen.length)) chosen rest := w.drop r hb hlt
      have hpassed : ∃ top', selectTop numProc c u fuel chosen.length
            (s.withTop (shiftTop numProc c top chosen.length)) =
          some ((selectList numProc (placeBits numProc c u) rest chosen s).2.withTop top') ∧
        (∀ i < numProc, top' i = (selectList numProc (placeBits numProc c u) rest chosen s).1[i]?) ∧
        ∀ i, numProc ≤ i → top' i = top i := by
        rw [List.length_cons] at hf
        obtain ⟨top', e, hwin, hframe⟩ := ih rest chosen s _ hdrop (by omega)
        exact ⟨top', e, hwin, fun i hi => (hframe i hi).trans (shiftTop_of_ge hlt hi)⟩
      rw [selectList_cons, if_pos hlt]
      simp only [List.getElem?_cons_zero]
      by_cases h0 : placeBits numProc c u t = 0
      · have hskip : skips numProc s.hist (placeBits numProc c u t) = true :=
          decide_eq_true (Or.inl h0)
        rw [if_pos h0, if_pos hskip]
        exact hpassed
      by_cases hover : placeBits numProc c u t ≠ ALL_CORE_BIT numProc ∧
          overbooked numProc s.hist (placeBits numProc c u t) = true
      · have hskip : skips numProc s.hist (placeBits numProc c u t) = true :=
          decide_eq_true (Or.inr hover)
        rw [if_neg h0, if_pos hskip]
        exact (if_pos hover).symm ▸ hpassed
      · have hskip : ¬skips numProc s.hist (placeBits numProc c u t) = true := fun h =>
          (of_decide_eq_true h).elim h0 hover
        rw [if_neg h0, if_neg hskip]
        have hkeep := ih rest (chosen ++ [t])
          (s.take numProc chosen.length (placeBits numProc c u t)) top (w.keep hlt rfl)
          (by rw [List.length_cons] at hf; omega)
        rw [List.length_append, List.length_singleton] at hkeep
        exact (if_neg hover).symm ▸ hkeep

/-- The tasks `ready_queue_top` keeps, and what it knows of them. -/
def selection (numProc : ℕ) (c : Core) (u : Cpus) (L : List Tsk) : List Tsk × Selection :=
  selectList numProc (placeBits numProc c u) L [] ((startSelection c).withTop fun _ => none)

theorem ReadyInv.readyQueueTop_list (r : ReadyInv numProc live Q c) {fuel : ℕ}
    (hf : (ordered (rdyQ Q)).length < fuel) :
    ∃ top, readyQueueTop numProc c u fuel =
        some (placed numProc c u ((selection numProc c u (ordered (rdyQ Q))).2.withTop top),
          { c with ready_queue.chg := false }) ∧
      (∀ i < numProc, top i = (selection numProc c u (ordered (rdyQ Q))).1[i]?) ∧
      ∀ i, numProc ≤ i → top i = c.ready_queue.top i := by
  have w : Window numProc (ordered (rdyQ Q))
      (((startSelection c).withTop fun _ => none).withTop c.ready_queue.top) []
      (ordered (rdyQ Q)) :=
    ⟨⟨[], rfl, List.Sublist.refl []⟩, Nat.zero_le _, fun k hk => r.top k hk⟩
  obtain ⟨top, e, hwin, hframe⟩ := selectTop_list r.toReadyLinks r.bitmap fuel _ [] _ _ w hf
  refine ⟨top, ?_, hwin, hframe⟩
  rw [readyQueueTop_eq, show startSelection c =
    ((startSelection c).withTop fun _ => none).withTop c.ready_queue.top from rfl,
    ← List.length_nil, e]
  rfl

/-! ## Moving a task -/

theorem updateTopAt_of_ge {tcb : Tsk → Tcb} {behind : ℕ → ℕ → Bool} {top : ℕ → Option Tsk} {k : ℕ}
    (hk : numProc ≤ k) : updateTopAt numProc tcb behind top t k = top k := by
  unfold updateTopAt
  rcases hf : (List.range numProc).find? fun n =>
      (top n).all fun u => behind (tcb u).priority (tcb t).priority with _ | n
  · rfl
  · have hn := List.mem_range.mp (List.mem_of_find?_eq_some hf)
    refine (Function.update_of_ne (by omega) _ _).trans ?_
    rw [shiftUp_apply, if_neg (by omega)]

theorem updateTopWhenRemove_of_ge {k : ℕ} (hk : numProc ≤ k) :
    updateTopWhenRemove numProc c t k = c.ready_queue.top k := by
  unfold updateTopWhenRemove
  dsimp only
  rcases hf : (List.range numProc).find? fun n => decide (some t = c.ready_queue.top n) with _ | n
  · rfl
  · have hn := List.mem_range.mp (List.mem_of_find?_eq_some hf)
    have hshift : shiftDown (numProc - 1 - n) n c.ready_queue.top k = c.ready_queue.top k := by
      rw [shiftDown_apply, if_neg (by omega)]
    dsimp only
    by_cases h1 : numProc = 1
    · rw [if_pos h1, Function.update_of_ne (by omega)]
    · rw [if_neg h1]
      rcases shiftDown (numProc - 1 - n) n c.ready_queue.top (numProc - 2) with _ | v
      · exact hshift
      · exact (Function.update_of_ne (by omega) _ _).trans hshift

/-- What `ready_queue_top` reads beside the queues is the same. -/
structure SameMasks (numProc : ℕ) (c c' : Core) : Prop where
  tskatr : ∀ t, (c'.tcb t).tskatr = (c.tcb t).tskatr
  assprc : ∀ t, (c'.tcb t).assprc = (c.tcb t).assprc
  top : ∀ i, numProc ≤ i → c'.ready_queue.top i = c.ready_queue.top i

theorem SameMasks.refl (c : Core) : SameMasks numProc c c :=
  ⟨fun _ => rfl, fun _ => rfl, fun _ _ => rfl⟩

theorem SameMasks.trans {c'' : Core} (h : SameMasks numProc c c') (h' : SameMasks numProc c' c'') :
    SameMasks numProc c c'' :=
  ⟨fun t => (h'.tskatr t).trans (h.tskatr t), fun t => (h'.assprc t).trans (h.assprc t),
    fun i hi => (h'.top i hi).trans (h.top i hi)⟩

theorem sameMasks_slicecnt (c : Core) (t : Tsk) (n : ℕ) :
    SameMasks numProc c { c with tcb := Function.update c.tcb t { c.tcb t with
      slicecnt := n } } := by
  constructor
  · intro x
    by_cases h : x = t
    · subst h
      simp
    · simp [h]
  · intro x
    by_cases h : x = t
    · subst h
      simp
    · simp [h]
  · exact fun _ _ => rfl

theorem sameMasks_moveLast (c : Core) (t : Tsk) :
    SameMasks numProc c (readyQueueMoveLast numProc c t).2 := by
  have hslice : SameMasks numProc c (clearSlicecnt c t) := sameMasks_slicecnt c t 0
  unfold readyQueueMoveLast
  dsimp only
  split_ifs
  · refine ⟨hslice.tskatr, hslice.assprc, fun i hi => ?_⟩
    show updateTopWhenInsert numProc c.tcb
      (updateTopWhenRemove numProc { c with que := queRemove (.tsk t) c.que } t) t i = _
    rw [updateTopWhenInsert, updateTopAt_of_ge hi, updateTopWhenRemove_of_ge hi]
  · exact hslice

theorem timeSliceSchedule_chg (sl : Slices) (c : Core) (tcb : Option Tsk) :
    (timeSliceSchedule numProc sl c tcb).2.ready_queue.chg = c.ready_queue.chg := by
  cases tcb with
  | none => rfl
  | some t =>
    unfold timeSliceSchedule readyQueueMoveLast
    dsimp only
    split_ifs <;> rfl

theorem rescheduleTurns_chg (sl : Slices) (u : Cpus) (toptsk : ℕ → Option Tsk) (l : List ℕ) :
    ∀ s : Schedule, (l.foldl (rescheduleTurn numProc sl u toptsk) s).core.ready_queue.chg =
      s.core.ready_queue.chg := by
  induction l with
  | nil => intro s; rfl
  | cons i l ih =>
    intro s
    refine (ih _).trans ?_
    unfold rescheduleTurn
    dsimp only
    split_ifs
    · exact timeSliceSchedule_chg sl s.core (s.schedtsk i)
    · rfl

namespace SameMasks

variable (h : SameMasks numProc c c')
include h

theorem askedBits (t : Tsk) : askedBits numProc c' t = askedBits numProc c t := by
  unfold SmpTKernel.askedBits
  rw [h.tskatr, h.assprc]

theorem placeBits : placeBits numProc c' u = placeBits numProc c u := by
  funext t
  unfold SmpTKernel.placeBits
  rw [h.askedBits]

theorem needsMulti (s : Selection) : needsMulti numProc c' s = needsMulti numProc c s := by
  unfold SmpTKernel.needsMulti
  simp only [h.assprc]

theorem assignAssprc : ∀ (js : List ℕ) (s : Placement),
    assignAssprc numProc c' js s = assignAssprc numProc c js s := by
  intro js
  induction js with
  | nil => intro s; rfl
  | cons j js ih =>
    intro s
    unfold SmpTKernel.assignAssprc
    simp only [h.tskatr, h.assprc, ih]

theorem placed (s : Selection) : placed numProc c' u s = placed numProc c u s := by
  unfold SmpTKernel.placed singleCoreAssign
  dsimp only
  rw [h.needsMulti, h.assignAssprc]

end SameMasks

/-! ## Re-selection -/

/-- The tasks of `Q₀` were moved without changing the selection. -/
structure Reselected (numProc : ℕ) (live : QHead → Prop) (u : Cpus) (c₀ : Core)
    (Q₀ : QHead → List Tsk) (c : Core) (Q : QHead → List Tsk) : Prop where
  ready : ReadyInv numProc live Q c
  masks : SameMasks numProc c₀ c
  perm : (ordered (rdyQ Q)).Perm (ordered (rdyQ Q₀))
  selected : selection numProc c u (ordered (rdyQ Q)) = selection numProc c₀ u (ordered (rdyQ Q₀))

variable {c₀ c₁ c₂ : Core} {Q₀ Q₁ Q₂ : QHead → List Tsk}

theorem Reselected.refl (r : ReadyInv numProc live Q c) : Reselected numProc live u c Q c Q :=
  ⟨r, SameMasks.refl c, List.Perm.refl _, rfl⟩

theorem Reselected.trans (h : Reselected numProc live u c₀ Q₀ c₁ Q₁)
    (h' : Reselected numProc live u c₁ Q₁ c₂ Q₂) :
    Reselected numProc live u c₀ Q₀ c₂ Q₂ :=
  ⟨h'.ready, h.masks.trans h'.masks, h'.perm.trans h.perm, h'.selected.trans h.selected⟩

theorem selection_congr (h : SameMasks numProc c c') (L : List Tsk) :
    selection numProc c' u L = selection numProc c u L := by
  unfold selection
  rw [h.placeBits]
  rfl

theorem Reselected.tcb (h : Reselected numProc live u c₀ Q₀ c Q) (r : ReadyInv numProc live Q₀ c₀)
    {fuel : ℕ} (hf : (ordered (rdyQ Q₀)).length < fuel) {tcb : ℕ → Option Tsk} {c' : Core}
    (htop : readyQueueTop numProc c₀ u fuel = some (tcb, c')) :
    readyQueueTop numProc c u fuel = some (tcb, { c with ready_queue.chg := false }) := by
  obtain ⟨top₀, e₀, hwin₀, hframe₀⟩ := r.readyQueueTop_list (u := u) hf
  obtain ⟨top, e, hwin, hframe⟩ := h.ready.readyQueueTop_list (u := u) (by rwa [h.perm.length_eq])
  have htops : top = top₀ := by
    funext i
    by_cases hi : i < numProc
    · rw [hwin i hi, hwin₀ i hi, h.selected]
    · rw [hframe i (not_lt.mp hi), hframe₀ i (not_lt.mp hi), h.masks.top i (not_lt.mp hi)]
  rw [htop] at e₀
  have htcb :
      tcb = placed numProc c₀ u ((selection numProc c₀ u (ordered (rdyQ Q₀))).2.withTop top₀) :=
    congrArg Prod.fst (Option.some.inj e₀)
  rw [e, htops, h.selected, h.masks.placed, htcb]

theorem Reselected.slicecnt (r : ReadyInv numProc live Q c) (t : Tsk) (n : ℕ) :
    Reselected numProc live u c Q { c with tcb := Function.update c.tcb t { c.tcb t with
      slicecnt := n } } Q := by
  have hready : ReadyInv numProc live Q
      { c with tcb := Function.update c.tcb t { c.tcb t with slicecnt := n } } :=
    ⟨⟨r.rings, r.live_rdy, fun p u hu => (slicecnt_priority c.tcb t u n).trans (r.priority p u hu),
      fun p u hu => (slicecnt_klockwait c.tcb t u n).trans (r.klockwait p u hu)⟩, r.bitmap, r.top⟩
  exact ⟨hready, sameMasks_slicecnt c t n, List.Perm.refl _,
    selection_congr (sameMasks_slicecnt c t n) _⟩

/-- **Moving a task that was not kept.** -/
theorem Reselected.moveLast (r : ReadyInv numProc live Q c) (ht : t ∈ ordered (rdyQ Q))
    (hnot : t ∉ (selection numProc c u (ordered (rdyQ Q))).1) :
    ∃ Q', Reselected numProc live u c Q (readyQueueMoveLast numProc c t).2 Q' := by
  obtain ⟨p, hp, htp⟩ := List.mem_flatMap.mp ht
  have hlt : p < NUM_PRI := List.mem_range.mp hp
  obtain ⟨a, b, e⟩ := List.append_of_mem htp
  change Q (.rdy p) = a ++ t :: b at e
  have hL : ordered (rdyQ Q) = (before (rdyQ Q) p ++ a) ++ t :: (b ++ after (rdyQ Q) p) := by
    rw [ordered_eq hlt, e]
    simp
  have hL' : ordered (rdyQ (Function.update Q (.rdy p) (a ++ b ++ [t]))) =
      (before (rdyQ Q) p ++ a) ++ (b ++ t :: after (rdyQ Q) p) := by
    rw [ordered_update hlt]
    simp
  refine ⟨_, r.moveLast e, sameMasks_moveLast c t, ?_, ?_⟩
  · rw [hL, hL']
    exact List.Perm.append_left _ List.perm_middle
  · rw [selection_congr (sameMasks_moveLast c t), hL, hL']
    rw [hL] at hnot
    exact selectList_move _ hnot

theorem Reselected.timeSlice (r : ReadyInv numProc live Q c) (sl : Slices) {tcb : Option Tsk}
    (htcb : ∀ t, tcb = some t → t ∈ ordered (rdyQ Q) ∧
      t ∉ (selection numProc c u (ordered (rdyQ Q))).1) :
    ∃ Q', Reselected numProc live u c Q (timeSliceSchedule numProc sl c tcb).2 Q' := by
  cases tcb with
  | none => exact ⟨Q, Reselected.refl r⟩
  | some t =>
    obtain ⟨ht, hnot⟩ := htcb t rfl
    unfold timeSliceSchedule
    dsimp only
    split_ifs with hslice hover
    · have h := Reselected.slicecnt (u := u) r t (((c.tcb t).slicecnt + sl.TIMER_PERIOD) % 2 ^ 32)
      obtain ⟨Q', h'⟩ := Reselected.moveLast h.ready ht (by rwa [h.selected])
      exact ⟨Q', h.trans h'⟩
    · exact ⟨Q, Reselected.slicecnt r t _⟩
    · exact ⟨Q, Reselected.refl r⟩

/-- The loop of `reschedule`, by the number of processors it has gone through. -/
theorem Reselected.turns (r : ReadyInv numProc live Q c) (sl : Slices)
    {toptsk schedtsk : ℕ → Option Tsk}
    (hsched : ∀ i < numProc, ∀ t, schedtsk i = some t → t ∈ ordered (rdyQ Q))
    (htop : ∀ t ∈ (selection numProc c u (ordered (rdyQ Q))).1, ∃ i < numProc, toptsk i = some t) :
    ∀ n ≤ numProc, ∃ Q',
      Reselected numProc live u c Q
        ((List.range n).foldl (rescheduleTurn numProc sl u toptsk) ⟨c, schedtsk⟩).core Q' ∧
      ∀ i, ((List.range n).foldl (rescheduleTurn numProc sl u toptsk) ⟨c, schedtsk⟩).schedtsk i =
        if i < n then toptsk i else schedtsk i := by
  intro n
  induction n with
  | zero => exact fun _ => ⟨Q, Reselected.refl r, fun i => rfl⟩
  | succ n ih =>
    intro hn
    obtain ⟨Q₁, h₁, hstored⟩ := ih (by omega)
    rw [List.range_succ, List.foldl_append]
    generalize (List.range n).foldl (rescheduleTurn numProc sl u toptsk) ⟨c, schedtsk⟩ =
      s at h₁ hstored
    have hsn : s.schedtsk n = schedtsk n := by
      rw [hstored n, if_neg (Nat.lt_irrefl n)]
    have hturn :
        ∃ Q', Reselected numProc live u c Q (rescheduleTurn numProc sl u toptsk s n).core Q' := by
      unfold rescheduleTurn
      dsimp only
      split_ifs with hmove
      · obtain ⟨hctx, hel⟩ := hmove
        have hskipped : ∀ t, s.schedtsk n = some t → t ∈ ordered (rdyQ Q₁) ∧
            t ∉ (selection numProc s.core u (ordered (rdyQ Q₁))).1 := by
          intro t ht
          rw [hsn] at ht
          refine ⟨h₁.perm.mem_iff.mpr (hsched n (by omega) t ht), fun hin => hel ?_⟩
          rw [h₁.selected] at hin
          obtain ⟨i, hi, hti⟩ := htop t hin
          refine List.any_eq_true.mpr ⟨i, List.mem_range.mpr hi, decide_eq_true ?_⟩
          rw [hti, ← hctx, hsn, ht]
        obtain ⟨Q₂, h₂⟩ := Reselected.timeSlice h₁.ready sl hskipped
        exact ⟨Q₂, h₁.trans h₂⟩
      · exact ⟨Q₁, h₁⟩
    obtain ⟨Q₂, h₂⟩ := hturn
    refine ⟨Q₂, h₂, fun i => ?_⟩
    show Function.update s.schedtsk n (toptsk n) i = _
    by_cases hi : i = n
    · subst hi
      simp
    · rw [Function.update_of_ne hi, hstored i]
      by_cases hlt : i < n
      · rw [if_pos hlt, if_pos (by omega)]
      · rw [if_neg hlt, if_neg (by omega)]

/-- The state `reschedule` starts from: a well-formed ready queue whose tasks ask for processors
there are, processors that run a task without dispatching only where it may run and nowhere else,
and scheduled tasks that are ready. -/
structure ScheduleOk (numProc : ℕ) (live : QHead → Prop) (Q : QHead → List Tsk) (u : Cpus)
    (s : Schedule) : Prop where
  ready : ReadyInv numProc live Q s.core
  mask : ∀ t ∈ ordered (rdyQ Q), MaskOk numProc s.core t
  ctx : ∀ t ∈ ordered (rdyQ Q), CtxOk numProc s.core u t
  sched : ∀ i < numProc, ∀ t, s.schedtsk i = some t → t ∈ ordered (rdyQ Q)

/-- A selection, and the kept tasks are the ones placed. -/
theorem ScheduleOk.readyQueueTop {st : Schedule} (ok : ScheduleOk numProc live Q u st)
    (hn : numProc ≤ MAX_PROC) {fuel : ℕ} (hf : (ordered (rdyQ Q)).length < fuel) :
    ∃ tcb, readyQueueTop numProc st.core u fuel =
      some (tcb, { st.core with ready_queue.chg := false }) ∧
      (∀ t ∈ (selection numProc st.core u (ordered (rdyQ Q))).1, ∃ i < numProc, tcb i = some t) ∧
      ∀ i < numProc, ∀ t, tcb i = some t → t ∈ ordered (rdyQ Q) := by
  obtain ⟨s, hs, hsel, hplaced⟩ := ok.ready.selects hn ok.mask ok.ctx hf
  obtain ⟨top, e, hwin, -⟩ := ok.ready.readyQueueTop_list (u := u) hf
  have w : Window numProc (ordered (rdyQ Q)) (((startSelection st.core).withTop fun _ =>
    none).withTop
      st.core.ready_queue.top) [] (ordered (rdyQ Q)) :=
    ⟨⟨[], rfl, List.Sublist.refl []⟩, Nat.zero_le _, fun k hk => ok.ready.top k hk⟩
  obtain ⟨top', e', hwin', -⟩ :=
    selectTop_list (u := u) ok.ready.toReadyLinks ok.ready.bitmap fuel _ [] _ _ w hf
  have hs' : s = (selection numProc st.core u (ordered (rdyQ Q))).2.withTop top' :=
    Option.some.inj (hs.symm.trans e')
  refine ⟨placed numProc st.core u s, ?_, fun t ht => ?_, fun i hi t ht => ?_⟩
  · rw [readyQueueTop_eq, hs, Option.map_some]
  · obtain ⟨k, hk, hkt⟩ := List.getElem_of_mem ht
    have hlen : (selection numProc st.core u (ordered (rdyQ Q))).1.length ≤ numProc :=
      length_selectList _ _ _ (Nat.zero_le numProc)
    have hkn : k < numProc := lt_of_lt_of_le hk hlen
    refine (hplaced.placed t).mpr (List.mem_of_getElem? (i := k) ?_)
    rw [← hsel.top k hkn, hs']
    exact (hwin' k hkn).trans ((List.getElem?_eq_getElem hk).trans (congrArg some hkt))
  · exact hsel.sublist.subset ((hplaced.placed t).mp ⟨i, hi, ht⟩)

/-- The selection of a state, as `reschedule` finds it. -/
def Selects (numProc : ℕ) (c : Core) (u : Cpus) (fuel : ℕ) (toptsk : ℕ → Option Tsk) : Prop :=
  SmpTKernel.readyQueueTop numProc c u fuel = some (toptsk, { c with ready_queue.chg := false })

/-- What is left after tasks were moved and the selection was stored. -/
theorem ScheduleOk.stored {st st' : Schedule} (ok : ScheduleOk numProc live Q u st)
    {Q' : QHead → List Tsk} {toptsk : ℕ → Option Tsk}
    (h : Reselected numProc live u st.core Q st'.core Q')
    (hqueued : ∀ i < numProc, ∀ t, toptsk i = some t → t ∈ ordered (rdyQ Q))
    (hstored : ∀ i < numProc, st'.schedtsk i = toptsk i) : ScheduleOk numProc live Q' u st' := by
  have hmem : ∀ t, t ∈ ordered (rdyQ Q') ↔ t ∈ ordered (rdyQ Q) := fun t => h.perm.mem_iff
  have hasked : ∀ t, askedBits numProc st'.core t = askedBits numProc st.core t := h.masks.askedBits
  refine ⟨h.ready, fun t ht => ?_, fun t ht => ?_, fun i hi t ht => ?_⟩
  · have := ok.mask t ((hmem t).mp ht)
    unfold MaskOk at this ⊢
    rwa [hasked]
  · have := ok.ctx t ((hmem t).mp ht)
    unfold CtxOk at this ⊢
    rwa [hasked]
  · rw [hstored i hi] at ht
    exact (hmem t).mpr (hqueued i hi t ht)

/-- The loop moves tasks without changing the selection, and stores it. -/
theorem ScheduleOk.reschedule {st : Schedule} (ok : ScheduleOk numProc live Q u st)
    (hn : numProc ≤ MAX_PROC) (sl : Slices) {fuel : ℕ} (hf : (ordered (rdyQ Q)).length < fuel)
    {toptsk : ℕ → Option Tsk} (htop : Selects numProc st.core u fuel toptsk) :
    ∃ req st' Q', reschedule numProc sl u fuel st = some (req, st') ∧
      Reselected numProc live u st.core Q st'.core Q' ∧ ScheduleOk numProc live Q' u st' ∧
      st'.core.ready_queue.chg = false ∧ ∀ i < numProc, st'.schedtsk i = toptsk i := by
  obtain ⟨tcb, e, hkept, hqueued⟩ := ok.readyQueueTop hn hf
  obtain rfl : tcb = toptsk := congrArg Prod.fst (Option.some.inj (e.symm.trans htop))
  -- clearing `chg` moves nothing
  let c₁ : Core := { st.core with ready_queue.chg := false }
  have r₁ : ReadyInv numProc live Q c₁ :=
    ⟨⟨ok.ready.rings, ok.ready.live_rdy, ok.ready.priority, ok.ready.klockwait⟩, ok.ready.bitmap,
      ok.ready.top⟩
  have hmasks : SameMasks numProc st.core c₁ := ⟨fun _ => rfl, fun _ => rfl, fun _ _ => rfl⟩
  have hclear : Reselected numProc live u st.core Q c₁ Q :=
    ⟨r₁, hmasks, List.Perm.refl _, selection_congr hmasks _⟩
  have hcall : SmpTKernel.reschedule numProc sl u fuel st = some
      (if isChangeSchedule numProc st.schedtsk tcb then
        (true, (List.range numProc).foldl (rescheduleTurn numProc sl u tcb) ⟨c₁, st.schedtsk⟩)
      else (false, ⟨c₁, st.schedtsk⟩)) := congrArg (Option.map _) htop
  by_cases hchange : isChangeSchedule numProc st.schedtsk tcb = true
  · rw [if_pos hchange] at hcall
    obtain ⟨Q', h, hstored⟩ := Reselected.turns (u := u) r₁ sl ok.sched
      (fun t ht => hkept t (by rwa [selection_congr hmasks] at ht)) numProc le_rfl
    have hst : ∀ i < numProc, _ = tcb i := fun i hi => (hstored i).trans (if_pos hi)
    exact ⟨_, _, Q', hcall, hclear.trans h, ok.stored (hclear.trans h) hqueued hst,
      rescheduleTurns_chg _ _ _ _ _, hst⟩
  · rw [if_neg hchange] at hcall
    have hst : ∀ i < numProc, st.schedtsk i = tcb i := by
      intro i hi
      by_contra hne
      exact hchange (List.any_eq_true.mpr ⟨i, List.mem_range.mpr hi, decide_eq_true hne⟩)
    have hok : ScheduleOk numProc live Q u ⟨c₁, st.schedtsk⟩ := ok.stored hclear hqueued hst
    exact ⟨_, _, Q, hcall, hclear, hok, rfl, hst⟩

/-- **Re-selection.** What `reschedule` stores is the selection from the queues it leaves, whatever
it moved; and moving any ready task that was not selected leaves the selection as it is. -/
theorem reschedule_selects (hn : numProc ≤ MAX_PROC) {st : Schedule}
    (ok : ScheduleOk numProc live Q u st) (sl : Slices) {fuel : ℕ}
    (hf : (ordered (rdyQ Q)).length < fuel) :
    ∃ toptsk, Selects numProc st.core u fuel toptsk ∧
      (∃ req st' Q', reschedule numProc sl u fuel st = some (req, st') ∧
        ScheduleOk numProc live Q' u st' ∧
        Selects numProc st'.core u fuel toptsk ∧ ∀ i < numProc, st'.schedtsk i = toptsk i) ∧
      ∀ t ∈ ordered (rdyQ Q), (∀ i < numProc, toptsk i ≠ some t) →
        Selects numProc (readyQueueMoveLast numProc st.core t).2 u fuel toptsk := by
  obtain ⟨toptsk, htop, hkept, -⟩ := ok.readyQueueTop hn hf
  refine ⟨toptsk, htop, ?_, fun t ht hnot => ?_⟩
  · obtain ⟨req, st', Q', hcall, h, hok, -, hstored⟩ := ok.reschedule hn sl hf htop
    exact ⟨req, st', Q', hcall, hok, h.tcb ok.ready hf htop, hstored⟩
  · obtain ⟨Q', h⟩ := Reselected.moveLast (u := u) ok.ready ht fun hin => by
      obtain ⟨i, hi, hti⟩ := hkept t hin
      exact hnot i hi hti
    exact h.tcb ok.ready hf htop

/-- The processors run the tasks `1` and `2`. -/
def busyRunning : Cpus where
  ctxtsk i := if i = 0 then some 1 else if i = 1 then some 2 else none
  dispatch_disabled _ := DDS_ENABLE

/-- Task `4` has become ready. -/
def busySchedule : Schedule where
  core := busyCore
  schedtsk i := if i = 0 then some 1 else if i = 1 then some 2 else none

theorem busySchedule_ok : ScheduleOk 2 IsRdy busyQ busyRunning busySchedule := by
  refine ⟨busyCore_inv, busy_maskOk, ?_, ?_⟩
  · rw [ordered_busy]
    unfold CtxOk
    decide +kernel
  · rw [ordered_busy]
    intro i _ t ht
    unfold busySchedule at ht
    dsimp only at ht
    split_ifs at ht
    · exact Option.some.inj ht ▸ by decide
    · exact Option.some.inj ht ▸ by decide

/-- Task `4` takes the processor of task `2`, whose time slice is over: it goes behind task `3`. -/
theorem reschedule_selects_pinned :
    (∃ toptsk, Selects 2 busySchedule.core busyRunning 5 toptsk ∧
      (∃ req st' Q', reschedule 2 ⟨10, fun _ => 5⟩ busyRunning 5 busySchedule = some (req, st') ∧
        ScheduleOk 2 IsRdy Q' busyRunning st' ∧ Selects 2 st'.core busyRunning 5 toptsk ∧
        ∀ i < 2, st'.schedtsk i = toptsk i) ∧
      ∀ t ∈ ordered (rdyQ busyQ), (∀ i < 2, toptsk i ≠ some t) →
        Selects 2 (readyQueueMoveLast 2 busySchedule.core t).2 busyRunning 5 toptsk) ∧
    (busySchedule.core.que (.tsk 1)).next = .tsk 2 ∧
    (reschedule 2 ⟨10, fun _ => 5⟩ busyRunning 5 busySchedule).any (fun r =>
      r.2.schedtsk 0 = some 1 ∧ r.2.schedtsk 1 = some 4 ∧
        (r.2.core.que (.tsk 1)).next = .tsk 3 ∧ (r.2.core.que (.tsk 3)).next = .tsk 2) = true :=
  ⟨reschedule_selects (by decide) busySchedule_ok ⟨10, fun _ => 5⟩ (by rw [ordered_busy]; decide),
    by decide +kernel, by decide +kernel⟩

end SmpTKernel
