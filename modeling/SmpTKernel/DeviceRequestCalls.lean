import SmpTKernel.DeviceRequest

/-!
# The tasks in driver calls

The tasks in driver calls and the marks of the requests go together: a request is marked by the one
task that is in the driver for it. From the marks an abort counts the tasks.
-/

namespace SmpTKernel

open Census

/-! ## Wait request lists -/

open OpnReqs (chain link)

theorem chain_congr {next next' : ℕ → Option ℕ} (n : ℕ) (p : Option ℕ)
    (h : ∀ r ∈ chain next n p, next' r = next r) : chain next' n p = chain next n p := by
  induction n generalizing p with
  | zero => cases p <;> rfl
  | succ n ih =>
    cases p with
    | none => rfl
    | some r =>
      have hr : next' r = next r := h r List.mem_cons_self
      have hrest := ih (next r) fun r' hr' => h r' (List.mem_cons_of_mem r hr')
      show r :: chain next' n (next' r) = r :: chain next n (next r)
      rw [hr, hrest]

theorem chain_link (next : ℕ → Option ℕ) {l : List ℕ} (h : l.Nodup) :
    chain (link next l) l.length l.head? = l := by
  induction l with
  | nil => rfl
  | cons r l ih =>
    have hrest := ih (List.nodup_cons.mp h).2
    have hnot := (List.nodup_cons.mp h).1
    have hkeep : ∀ r' ∈ chain (link next l) l.length l.head?, link next (r :: l) r' =
        link next l r' := by
      intro r' hr'
      rw [hrest] at hr'
      exact Function.update_of_ne (ne_of_mem_of_not_mem hr' hnot) ..
    have hnext : link next (r :: l) r = l.head? := Function.update_self ..
    show r :: chain (link next (r :: l)) l.length (link next (r :: l) r) = r :: l
    rw [hnext, chain_congr _ _ hkeep, hrest]

/-! ## Driver calls -/

theorem inCall_inExec (r : ℕ) : (ReqPos.inExec r).InCall := trivial

theorem inCall_inWait (r : ℕ) (l : List ℕ) : (ReqPos.inWait r l).InCall := trivial

/-- The wait request list of task `t`. -/
structure WaitList (s : OpnReqs) (t : Tsk) (reqid : ℕ) (l : List ℕ) : Prop where
  mine : ∀ r ∈ l, r ∈ s.requestq ∧ s.tskid r = t
  linked : chain s.next l.length l.head? = l
  nonempty : l ≠ []
  one : reqid ≠ 0 → l = [reqid]

/-- Every free block has been freed as often as it was taken. -/
def BlockLog (s : OpnReqs) : Prop :=
  ∀ r, s.log.count (.taken r) = s.log.count (.freed r) + if r ∈ s.requestq then 1 else 0

structure CallInv (s : OpnReqs) : Prop where
  nodup : s.requestq.Nodup
  positive : ∀ r ∈ s.requestq, 0 < r
  exec : ∀ t r, s.pos t = .inExec r → r ∈ s.requestq ∧ s.tskid r = t
  wait : ∀ t reqid l, s.pos t = .inWait reqid l → WaitList s t reqid l
  marked : ∀ r ∈ s.requestq, s.tskid r ≠ 0 → (s.pos (s.tskid r)).InCall ∧ (s.pos (s.tskid r)).Uses r
  task : ∀ t, (s.pos t).InCall → 0 < t
  any : ∀ t l, s.pos t = .inWait 0 l → 0 < s.nwaireq ∧
    ∀ t' reqid' l', s.pos t' = .inWait reqid' l' → t' = t
  anySome : 0 < s.nwaireq → ∃ t l, s.pos t = .inWait 0 l
  blocks : BlockLog s

variable {s s' : OpnReqs} {t : Tsk} {r reqid : ℕ} {l : List ℕ} {p : ReqPos} {ercd : ER}

/-- What a task in the driver uses is registered, and marked by it. -/
theorem CallInv.uses (inv : CallInv s) (hc : (s.pos t).InCall) (hu : (s.pos t).Uses r) :
    r ∈ s.requestq ∧ s.tskid r = t := by
  cases hp : s.pos t with
  | inExec r' =>
    rw [hp] at hu
    obtain rfl : r' = r := hu
    exact inv.exec t r' hp
  | inWait reqid l =>
    rw [hp] at hu
    exact (inv.wait t reqid l hp).mine r hu
  | _ =>
    rw [hp] at hc
    exact hc.elim

theorem CallInv.exists_uses (inv : CallInv s) (hc : (s.pos t).InCall) : ∃ r, (s.pos t).Uses r := by
  cases hp : s.pos t with
  | inExec r => exact ⟨r, rfl⟩
  | inWait reqid l => exact List.exists_mem_of_ne_nil l (inv.wait t reqid l hp).nonempty
  | _ =>
    rw [hp] at hc
    exact hc.elim

/-- Nothing changes for the tasks in the driver and the requests. -/
theorem CallInv.frame (inv : CallInv s) (hpos : ∀ t p, p.InCall → (s'.pos t = p ↔ s.pos t = p))
    (hreq : s'.requestq = s.requestq) (htskid : s'.tskid = s.tskid)
    (hnext : ∀ r ∈ s.requestq, s'.next r = s.next r) (hnwai : s'.nwaireq = s.nwaireq)
    (hblocks : BlockLog s') : CallInv s' := by
  have hwait : ∀ {t reqid l}, s'.pos t = .inWait reqid l ↔ s.pos t = .inWait reqid l :=
    fun {t reqid l} => hpos t (.inWait reqid l) trivial
  refine ⟨hreq ▸ inv.nodup, hreq ▸ inv.positive, fun t r h => ?_, fun t reqid l h => ?_,
    fun r hr ht => ?_, fun t h => ?_, fun t l h => ?_, fun h => ?_, hblocks⟩
  · rw [hreq, htskid]
    exact inv.exec t r ((hpos t (.inExec r) trivial).mp h)
  · have hl := inv.wait t reqid l (hwait.mp h)
    refine ⟨fun r hr => ?_, ?_, hl.nonempty, hl.one⟩
    · rw [hreq, htskid]
      exact hl.mine r hr
    · rw [chain_congr _ _ fun r hr => hnext r ((hl.mine r (hl.linked ▸ hr)).1), hl.linked]
  · rw [hreq] at hr
    rw [htskid] at ht ⊢
    have hm := inv.marked r hr ht
    rw [(hpos _ _ hm.1).mpr rfl]
    exact hm
  · have e := (hpos t (s'.pos t) h).mp rfl
    apply inv.task t
    rw [e]
    exact h
  · rw [hnwai]
    exact ⟨(inv.any t l (hwait.mp h)).1, fun t' reqid' l' h' =>
      (inv.any t l (hwait.mp h)).2 t' reqid' l' (hwait.mp h')⟩
  · obtain ⟨t, l, h'⟩ := inv.anySome (hnwai ▸ h)
    exact ⟨t, l, hwait.mpr h'⟩

theorem update_call_iff {pos : Tsk → ReqPos} (ht : ¬(pos t).InCall) (hp : ¬p.InCall) (t' : Tsk)
    (q : ReqPos) (hq : q.InCall) : Function.update pos t p t' = q ↔ pos t' = q := by
  rcases eq_or_ne t' t with rfl | hne
  · rw [Function.update_self]
    refine iff_of_false ?_ ?_
    · rintro rfl
      exact hp hq
    · rintro rfl
      exact ht hq
  · rw [Function.update_of_ne hne]

theorem update_eq {pos : Tsk → ReqPos} {t' : Tsk} {q : ReqPos} (h : Function.update pos t p t' = q)
    (hne : q ≠ p) :
    t' ≠ t ∧ pos t' = q := by
  rcases eq_or_ne t' t with rfl | hne'
  · rw [Function.update_self] at h
    exact absurd h.symm hne
  · rw [Function.update_of_ne hne'] at h
    exact ⟨hne', h⟩

/-! ### The log -/

theorem blockLog_same (h : BlockLog s) (hreq : s'.requestq = s.requestq)
    (hlog : ∀ r, s'.log.count (.taken r) = s.log.count (.taken r) ∧
      s'.log.count (.freed r) = s.log.count (.freed r)) :
    BlockLog s' := by
  intro r
  rw [(hlog r).1, (hlog r).2, hreq]
  exact h r

theorem count_concat (log : List ReqEvent) (e e' : ReqEvent) :
    (log ++ [e]).count e' = log.count e' + if e = e' then 1 else 0 := by
  rw [List.count_append, List.count_singleton]
  simp

theorem blockLog_taken (h : BlockLog s) (hr : r ∉ s.requestq) : BlockLog (s.newReqCB r) := by
  intro r'
  have h' := h r'
  show (s.log ++ [ReqEvent.taken r]).count (ReqEvent.taken r') =
    (s.log ++ [ReqEvent.taken r]).count (ReqEvent.freed r') + if r' ∈ s.requestq ++
    [r] then 1 else 0
  rw [count_concat, count_concat, h', if_neg (show ReqEvent.taken r ≠ .freed r' from
    ReqEvent.noConfusion)]
  rcases eq_or_ne r r' with rfl | hne
  · rw [if_neg hr, if_pos rfl, if_pos (List.mem_append_right _ (List.mem_singleton_self r))]
  · have hmem : r' ∈ s.requestq ++ [r] ↔ r' ∈ s.requestq :=
      ⟨fun h => (List.mem_append.mp h).resolve_right fun h => hne (List.mem_singleton.mp h).symm,
        List.mem_append_left _⟩
    rw [if_neg (fun h => hne (ReqEvent.taken.inj h)), if_congr hmem rfl rfl, Nat.add_zero,
      Nat.add_zero]

theorem blockLog_freed (h : BlockLog s) (nodup : s.requestq.Nodup) (hr : r ∈ s.requestq) :
    BlockLog (s.delReqCB r) := by
  intro r'
  have h' := h r'
  show (s.log ++ [ReqEvent.freed r]).count (ReqEvent.taken r') =
    (s.log ++ [ReqEvent.freed r]).count (ReqEvent.freed r') + if r' ∈ s.requestq.erase r then
    1 else 0
  rw [count_concat, count_concat, h', if_neg (show ReqEvent.freed r ≠ .taken r' from
    ReqEvent.noConfusion)]
  have hmem : r' ∈ s.requestq.erase r ↔ r' ≠ r ∧ r' ∈ s.requestq := nodup.mem_erase_iff
  rcases eq_or_ne r r' with rfl | hne
  · rw [if_pos hr, if_pos rfl, if_neg fun h => (hmem.mp h).1 rfl]
  · rw [if_neg (fun h => hne (ReqEvent.freed.inj h)), if_congr (hmem.trans (and_iff_right hne.symm))
      rfl rfl, Nat.add_zero, Nat.add_zero]

/-! ### Calls begin and end -/

/-- A request is started. -/
theorem CallInv.start (inv : CallInv s) (ht : s.pos t = .outside) (hpos : 0 < t)
    (hr : r ∉ s.requestq) (hr0 : 0 < r) (hs : s'.pos = Function.update s.pos t (.inExec r))
    (hreq : s'.requestq = s.requestq ++ [r]) (htskid : s'.tskid = Function.update s.tskid r t)
    (hnext : ∀ r', r' ≠ r → s'.next r' = s.next r') (hnwai : s'.nwaireq = s.nwaireq)
    (hblocks : BlockLog s') :
    CallInv s' := by
  have hcall : ¬(s.pos t).InCall := by
    rw [ht]
    exact id
  have hne : ∀ {r'}, r' ∈ s.requestq → r' ≠ r := fun h => ne_of_mem_of_not_mem h hr
  have hmark : ∀ {r'}, r' ≠ r → s'.tskid r' = s.tskid r' :=
    fun h => by rw [htskid, Function.update_of_ne h]
  have hwait : ∀ {t' reqid l}, s'.pos t' = .inWait reqid l ↔ s.pos t' = .inWait reqid l := by
    intro t' reqid l
    rw [hs]
    constructor
    · intro h
      exact (update_eq h ReqPos.noConfusion).2
    · intro h
      rw [Function.update_of_ne (by rintro rfl; exact hcall (by rw [h]; exact trivial))]
      exact h
  refine ⟨?_, fun r' h => ?_, fun t' r' h => ?_, fun t' reqid l h => ?_, fun r' h hm => ?_,
    fun t' h => ?_, fun t' l h => ?_, fun h => ?_, hblocks⟩
  · rw [hreq, ← List.concat_eq_append]
    exact inv.nodup.concat hr
  · rw [hreq] at h
    rcases List.mem_append.mp h with h | h
    · exact inv.positive r' h
    · rwa [List.mem_singleton.mp h]
  · rw [hs] at h
    rw [hreq]
    rcases eq_or_ne t' t with rfl | hne'
    · rw [Function.update_self] at h
      obtain rfl := ReqPos.inExec.inj h
      rw [htskid, Function.update_self]
      exact ⟨List.mem_append_right _ (List.mem_singleton_self r), rfl⟩
    · rw [Function.update_of_ne hne'] at h
      have he := inv.exec t' r' h
      rw [hmark (hne he.1)]
      exact ⟨List.mem_append_left _ he.1, he.2⟩
  · have hl := inv.wait t' reqid l (hwait.mp h)
    refine ⟨fun r' hr' => ?_, ?_, hl.nonempty, hl.one⟩
    · rw [hreq, hmark (hne (hl.mine r' hr').1)]
      exact ⟨List.mem_append_left _ (hl.mine r' hr').1, (hl.mine r' hr').2⟩
    · rw [chain_congr _ _ fun r' hr' => hnext r' (hne (hl.mine r' (hl.linked ▸ hr')).1), hl.linked]
  · rw [hreq] at h
    rw [hs]
    rcases List.mem_append.mp h with h | h
    · rw [hmark (hne h)] at hm ⊢
      have hold := inv.marked r' h hm
      have hne' : s.tskid r' ≠ t := by
        rintro rfl
        exact hcall hold.1
      rw [Function.update_of_ne hne']
      exact hold
    · obtain rfl := List.mem_singleton.mp h
      rw [htskid, Function.update_self, Function.update_self]
      exact ⟨trivial, rfl⟩
  · rcases eq_or_ne t' t with rfl | hne'
    · exact hpos
    · rw [hs, Function.update_of_ne hne'] at h
      exact inv.task t' h
  · rw [hnwai]
    have hany := inv.any t' l (hwait.mp h)
    exact ⟨hany.1, fun t'' reqid' l' h' => hany.2 t'' reqid' l' (hwait.mp h')⟩
  · obtain ⟨t', l, h'⟩ := inv.anySome (hnwai ▸ h)
    exact ⟨t', l, hwait.mpr h'⟩

/-- A call returns: its requests lose their marks. -/
theorem CallInv.ret (inv : CallInv s) (hmine : ∀ r, r ∈ l ↔ (s.pos t).Uses r)
    (hcall : (s.pos t).InCall) (hself : ¬(s'.pos t).InCall)
    (hothers : ∀ t', t' ≠ t → ∀ p, p.InCall → (s'.pos t' = p ↔ s.pos t' = p))
    (hreq : s'.requestq = s.requestq) (htskid : s'.tskid = fun r => if r ∈ l then 0 else s.tskid r)
    (hnext : s'.next = s.next) (hany : ∀ l, s.pos t = .inWait 0 l → s'.nwaireq = 0)
    (hnwai : (∀ l, s.pos t ≠ .inWait 0 l) → s'.nwaireq = s.nwaireq) (hblocks : BlockLog s') :
    CallInv s' := by
  have hold : ∀ {t' p}, p.InCall → s'.pos t' = p → t' ≠ t ∧ s.pos t' = p := by
    intro t' p hp h
    have hne : t' ≠ t := by
      rintro rfl
      rw [h] at hself
      exact hself hp
    exact ⟨hne, (hothers t' hne p hp).mp h⟩
  -- a request that another task uses is not one of the list
  have hkeep : ∀ {t' r}, t' ≠ t → r ∈ s.requestq ∧ s.tskid r = t' → r ∈ s'.requestq ∧
      s'.tskid r = t' := by
    intro t' r hne hr
    have hl : r ∉ l := by
      intro hl
      exact hne (hr.2.symm.trans (inv.uses hcall ((hmine r).mp hl)).2)
    rw [hreq, htskid]
    exact ⟨hr.1, (if_neg hl).trans hr.2⟩
  refine ⟨hreq ▸ inv.nodup, hreq ▸ inv.positive, fun t' r h => ?_, fun t' reqid l' h => ?_,
    fun r hr hm => ?_, fun t' h => ?_, fun t' l' h => ?_, fun h => ?_, hblocks⟩
  · obtain ⟨hne, h⟩ := hold (inCall_inExec _) h
    exact hkeep hne (inv.exec t' r h)
  · obtain ⟨hne, h⟩ := hold (inCall_inWait _ _) h
    have hl := inv.wait t' reqid l' h
    exact ⟨fun r hr => hkeep hne (hl.mine r hr), hnext ▸ hl.linked, hl.nonempty, hl.one⟩
  · rw [hreq] at hr
    have hl : r ∉ l := by
      intro hl
      rw [htskid] at hm
      exact hm (if_pos hl)
    have e : s'.tskid r = s.tskid r := by
      rw [htskid]
      exact if_neg hl
    rw [e] at hm ⊢
    have hmark := inv.marked r hr hm
    have hne : s.tskid r ≠ t := by
      intro hne
      rw [hne] at hmark
      exact hl ((hmine r).mpr hmark.2)
    rw [(hothers _ hne _ hmark.1).mpr rfl]
    exact hmark
  · obtain ⟨-, h'⟩ := hold h rfl
    apply inv.task t'
    rw [h']
    exact h
  · obtain ⟨hne, h⟩ := hold (inCall_inWait _ _) h
    have hany' := inv.any t' l' h
    have hnot : ∀ l, s.pos t ≠ .inWait 0 l := fun l hl => hne (hany'.2 t 0 l hl).symm
    rw [hnwai hnot]
    exact ⟨hany'.1, fun t'' reqid' l'' h'' =>
      hany'.2 t'' reqid' l'' (hold (inCall_inWait _ _) h'').2⟩
  · have hnot : ∀ l, s.pos t ≠ .inWait 0 l := by
      intro l hl
      rw [hany l hl] at h
      exact lt_irrefl 0 h
    rw [hnwai hnot] at h
    obtain ⟨t', l', h'⟩ := inv.anySome h
    have hne : t' ≠ t := by
      rintro rfl
      exact hnot l' h'
    exact ⟨t', l', (hothers t' hne _ (inCall_inWait _ _)).mpr h'⟩

/-- A request that nobody uses is freed. -/
theorem CallInv.del (inv : CallInv s) (hr : r ∈ s.requestq)
    (hfree : ∀ t, (s.pos t).InCall → ¬(s.pos t).Uses r) :
    CallInv (s.delReqCB r) := by
  have hmem : ∀ {r'}, r' ∈ (s.delReqCB r).requestq ↔ r' ≠ r ∧ r' ∈ s.requestq :=
    inv.nodup.mem_erase_iff
  have hkeep : ∀ {t r'}, (s.pos t).InCall → (s.pos t).Uses r' → r' ∈ s.requestq →
      r' ∈ (s.delReqCB r).requestq := by
    intro t r' hc hu hr'
    refine hmem.mpr ⟨?_, hr'⟩
    rintro rfl
    exact hfree t hc hu
  refine ⟨inv.nodup.erase r, fun r' h => inv.positive r' (hmem.mp h).2, fun t r' h => ?_,
    fun t reqid l h => ?_, fun r' h hm => inv.marked r' (hmem.mp h).2 hm, inv.task, inv.any,
    inv.anySome, blockLog_freed inv.blocks inv.nodup hr⟩
  · have hp : s.pos t = .inExec r' := h
    have he := inv.exec t r' hp
    refine ⟨hkeep (t := t) ?_ ?_ he.1, he.2⟩
    · rw [hp]
      exact trivial
    · rw [hp]
      exact rfl
  · have hp : s.pos t = .inWait reqid l := h
    have hl := inv.wait t reqid l hp
    refine ⟨fun r' hr' => ⟨hkeep (t := t) ?_ ?_ (hl.mine r' hr').1, (hl.mine r' hr').2⟩, hl.linked,
      hl.nonempty, hl.one⟩
    · rw [hp]
      exact trivial
    · rw [hp]
      exact hr'

/-- A wait for any request begins: nobody is in the driver. -/
theorem CallInv.waitAny (inv : CallInv s) (hpos : 0 < t) (hidle : ∀ t, ¬(s.pos t).InCall)
    (hne : s.requestq ≠ []) (hs : s'.pos = Function.update s.pos t (.inWait 0 s.requestq))
    (hreq : s'.requestq = s.requestq) (htskid : ∀ r ∈ s.requestq, s'.tskid r = t)
    (hnext : s'.next = link s.next s.requestq) (hnwai : s'.nwaireq = s.requestq.length)
    (hblocks : BlockLog s') : CallInv s' := by
  have hself : s'.pos t = .inWait 0 s.requestq := by
    rw [hs, Function.update_self]
  have honly : ∀ {t' p}, p.InCall → s'.pos t' = p → t' = t ∧ p = .inWait 0 s.requestq := by
    intro t' p hp h
    rcases eq_or_ne t' t with rfl | hne'
    · exact ⟨rfl, h.symm.trans hself⟩
    · rw [hs, Function.update_of_ne hne'] at h
      exact absurd (h ▸ hp) (hidle t')
  refine ⟨hreq ▸ inv.nodup, hreq ▸ inv.positive, fun t' r h => ?_, fun t' reqid l h => ?_,
    fun r hr hm => ?_, fun t' h => ?_, fun t' l h => ?_, fun _ => ⟨t, s.requestq, hself⟩, hblocks⟩
  · exact absurd (honly (inCall_inExec _) h).2 ReqPos.noConfusion
  · obtain ⟨rfl, h'⟩ := honly (inCall_inWait _ _) h
    obtain ⟨rfl, rfl⟩ := ReqPos.inWait.inj h'
    refine ⟨fun r hr => ⟨hreq ▸ hr, htskid r hr⟩, ?_, hne, fun h0 => absurd rfl h0⟩
    rw [hnext]
    exact chain_link s.next inv.nodup
  · rw [hreq] at hr
    rw [htskid r hr, hself]
    exact ⟨trivial, hr⟩
  · rw [(honly h rfl).1]
    exact hpos
  · refine ⟨?_, fun t'' reqid' l' h' => (honly (inCall_inWait _ _) h').1.trans
      (honly (inCall_inWait _ _) h).1.symm⟩
    rw [hnwai]
    exact List.length_pos_of_ne_nil hne

/-- A wait for one request begins. -/
theorem CallInv.waitOne (inv : CallInv s) (hpos : 0 < t) (ht : s.pos t = .outside)
    (hr : r ∈ s.requestq) (hmark : s.tskid r = 0) (hnone : s.nwaireq = 0)
    (hs : s'.pos = Function.update s.pos t (.inWait r [r])) (hreq : s'.requestq = s.requestq)
    (htskid : s'.tskid = Function.update s.tskid r t)
    (hnext : s'.next = Function.update s.next r none) (hnwai : s'.nwaireq = s.nwaireq)
    (hblocks : BlockLog s') : CallInv s' := by
  have hr0 : r ≠ 0 := (inv.positive r hr).ne'
  have hcall : ¬(s.pos t).InCall := by
    rw [ht]
    exact id
  have hself : s'.pos t = .inWait r [r] := by
    rw [hs, Function.update_self]
  have hothers : ∀ {t'}, t' ≠ t → s'.pos t' = s.pos t' :=
    fun h => by rw [hs, Function.update_of_ne h]
  -- the others use other requests
  have hkeep : ∀ {t' r'}, 0 < t' → r' ∈ s.requestq ∧ s.tskid r' = t' →
      r' ≠ r ∧ r' ∈ s'.requestq ∧ s'.tskid r' = t' := by
    rintro t' r' hpos' ⟨hr', hm⟩
    have hne : r' ≠ r := by
      rintro rfl
      exact hpos'.ne (hmark.symm.trans hm)
    rw [hreq, htskid, Function.update_of_ne hne]
    exact ⟨hne, hr', hm⟩
  have hwait0 : ∀ t' l, s'.pos t' ≠ .inWait 0 l := by
    intro t' l h
    rcases eq_or_ne t' t with rfl | hne
    · exact hr0 (ReqPos.inWait.inj (hself.symm.trans h)).1
    · rw [hothers hne] at h
      exact (inv.any t' l h).1.ne' hnone
  refine ⟨hreq ▸ inv.nodup, hreq ▸ inv.positive, fun t' r' h => ?_, fun t' reqid l h => ?_,
    fun r' hr' hm => ?_, fun t' h => ?_, fun t' l h => absurd h (hwait0 t' l), fun h =>
      absurd (hnwai ▸ hnone) h.ne', hblocks⟩
  · rcases eq_or_ne t' t with rfl | hne
    · exact absurd (hself.symm.trans h) ReqPos.noConfusion
    · rw [hothers hne] at h
      exact (hkeep (inv.task t' (by rw [h]; exact trivial)) (inv.exec t' r' h)).2
  · rcases eq_or_ne t' t with rfl | hne
    · obtain ⟨rfl, rfl⟩ := ReqPos.inWait.inj (hself.symm.trans h)
      refine ⟨fun r' hr' => ?_, ?_, List.cons_ne_nil r [], fun _ => rfl⟩
      · obtain rfl := List.mem_singleton.mp hr'
        rw [hreq, htskid, Function.update_self]
        exact ⟨hr, rfl⟩
      · rfl
    · rw [hothers hne] at h
      have hl := inv.wait t' reqid l h
      have hpos' := inv.task t' (by rw [h]; exact trivial)
      refine ⟨fun r' hr' => (hkeep hpos' (hl.mine r' hr')).2, ?_, hl.nonempty, hl.one⟩
      rw [chain_congr _ _ fun r' hr' => ?_, hl.linked]
      rw [hnext, Function.update_of_ne (hkeep hpos' (hl.mine r' (hl.linked ▸ hr'))).1]
  · rw [hreq] at hr'
    rcases eq_or_ne r' r with rfl | hne
    · rw [htskid, Function.update_self, hself]
      exact ⟨trivial, List.mem_singleton_self r'⟩
    · rw [htskid, Function.update_of_ne hne] at hm ⊢
      have hold := inv.marked r' hr' hm
      have hne' : s.tskid r' ≠ t := by
        intro h
        rw [h] at hold
        exact hcall hold.1
      rw [hothers hne']
      exact hold
  · rcases eq_or_ne t' t with rfl | hne
    · exact hpos
    · rw [hothers hne] at h
      exact inv.task t' h

/-! ### Counting -/

/-- The marked requests are as many as the tasks in the driver, if none waits for several. -/
theorem CallInv.counts (inv : CallInv s) (hnone : s.nwaireq = 0) :
    Count s.pos ReqPos.InCall (s.requestq.countP fun r => s.tskid r ≠ 0) := by
  have hmark : ∀ {r}, r ∈ s.requestq.filter (fun r => s.tskid r ≠ 0) → r ∈ s.requestq ∧
      s.tskid r ≠ 0 := by
    intro r hr
    obtain ⟨hr, hm⟩ := List.mem_filter.mp hr
    exact ⟨hr, of_decide_eq_true hm⟩
  have hone : ∀ {t r r'}, (s.pos t).InCall → (s.pos t).Uses r → (s.pos t).Uses r' → r = r' := by
    intro t r r' hc hr hr'
    cases hp : s.pos t with
    | inExec r₀ =>
      rw [hp] at hr hr'
      exact hr.symm.trans hr'
    | inWait reqid l =>
      rw [hp] at hr hr'
      have h0 : reqid ≠ 0 := by
        rintro rfl
        exact (inv.any t l hp).1.ne' hnone
      have hl := (inv.wait t reqid l hp).one h0
      subst hl
      exact (List.mem_singleton.mp hr).trans (List.mem_singleton.mp hr').symm
    | _ =>
      rw [hp] at hc
      exact hc.elim
  have hnodup : ((s.requestq.filter fun r => s.tskid r ≠ 0).map s.tskid).Nodup := by
    refine List.Nodup.map_on ?_ (inv.nodup.filter _)
    intro r hr r' hr' heq
    have hu := inv.marked r (hmark hr).1 (hmark hr).2
    have hu' := inv.marked r' (hmark hr').1 (hmark hr').2
    rw [← heq] at hu'
    exact hone hu.1 hu.2 hu'.2
  have e :
      {t | (s.pos t).InCall} =
      ((s.requestq.filter fun r => s.tskid r ≠ 0).map s.tskid).toFinset := by
    ext t
    rw [Set.mem_ofPred_eq, Finset.mem_coe, List.mem_toFinset, List.mem_map]
    constructor
    · intro hc
      obtain ⟨r, hu⟩ := inv.exists_uses hc
      obtain ⟨hr, hm⟩ := inv.uses hc hu
      have hm0 : s.tskid r ≠ 0 := by
        rw [hm]
        exact (inv.task t hc).ne'
      exact ⟨r, List.mem_filter.mpr ⟨hr, decide_eq_true hm0⟩, hm⟩
    · rintro ⟨r, hr, rfl⟩
      exact (inv.marked r (hmark hr).1 (hmark hr).2).1
  unfold Count
  rw [e, Set.encard_coe_eq_coe_finsetCard, List.toFinset_card_of_nodup hnodup, List.length_map,
    List.countP_eq_length_filter]

/-- A task that waits for any request is alone in the driver, if no request is being started. -/
theorem CallInv.counts_any (inv : CallInv s) (hany : 0 < s.nwaireq)
    (hexec : ∀ t r, s.pos t ≠ .inExec r) :
    Count s.pos ReqPos.InCall 1 := by
  obtain ⟨t₀, l₀, h₀⟩ := inv.anySome hany
  have e : {t | (s.pos t).InCall} = {t₀} := by
    ext t
    rw [Set.mem_ofPred_eq, Set.mem_singleton_iff]
    constructor
    · intro hc
      cases hp : s.pos t with
      | inExec r => exact absurd hp (hexec t r)
      | inWait reqid l => exact (inv.any t₀ l₀ h₀).2 t reqid l hp
      | _ =>
        rw [hp] at hc
        exact hc.elim
    · rintro rfl
      rw [h₀]
      exact trivial
  unfold Count
  rw [e, Set.encard_singleton, Nat.cast_one]

end SmpTKernel
