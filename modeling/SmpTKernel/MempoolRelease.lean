import SmpTKernel.MempoolInv

/-!
# Releasing a block again

As long as no block is allocated, the flag of use of every block that was released stays clear,
whichever areas were merged since, and `tk_rel_mpl` does not take the block again.
-/

namespace SmpTKernel

open LinkRing Words Tiling

variable {base size : ℕ} {s s' : Mplcb} {out : List (ℕ × ℤ)} {freed : List ℕ}
  {areas : List HeapArea} {blk z : ℕ} {asked tmout : ℤ} {ev h : List MplEvent}

/-- The effect of an event on the blocks released since the last allocation. -/
def MplEvent.trackFreed (freed : List ℕ) : MplEvent → List ℕ
  | got .. => []
  | released blk => blk :: freed
  | getFails .. | relFails .. => freed

/-- The blocks released since the last allocation. -/
def freedBlocks (h : List MplEvent) : List ℕ := h.foldl MplEvent.trackFreed []

theorem freedBlocks_append (h ev : List MplEvent) :
    freedBlocks (h ++ ev) = ev.foldl MplEvent.trackFreed (freedBlocks h) :=
  List.foldl_append

/-- The pool, whose areas show that the blocks `freed` were released. -/
structure FreedInv (base size : ℕ) (s : Mplcb) (out : List (ℕ × ℤ)) (freed : List ℕ) : Prop
    extends MplInv base size s out where
  shows : ∃ areas, OwnedHeap s.cfg mplTags s.mem [⟨base, areas, base + QUEUESZ + size⟩] out ∧
    ∀ blk ∈ freed, Retired 1 s.mem areas (blk - QUEUESZ)

theorem MplInv.noneFreed (inv : MplInv base size s out) : FreedInv base size s out [] := by
  obtain ⟨areas, o⟩ := inv.heap
  exact ⟨inv, areas, o, nofun⟩

theorem FreedInv.congr (inv : FreedInv base size s out freed) (inv' : MplInv base size s' out)
    (ha : s'.areaque = s.areaque) (hsz : s'.mplsz = s.mplsz) (hm : s'.mem = s.mem) :
    FreedInv base size s' out freed := by
  have hc : s'.cfg = s.cfg := by
    unfold Mplcb.cfg
    rw [ha, hsz]
  obtain ⟨areas, o, hfreed⟩ := inv.shows
  exact ⟨inv', areas, by rw [hc, hm]; exact o, by rw [hm]; exact hfreed⟩

/-! ## Operations -/

/-- The memory of the pool stays. -/
structure SameMpl (s s' : Mplcb) : Prop where
  areaque : s'.areaque = s.areaque
  mplsz : s'.mplsz = s.mplsz
  mem : s'.mem = s.mem

/-- Either nothing is allocated and the memory stays, or there is an allocation and no release after
it. -/
theorem mplWakeupLoop_freed (queue : List Tsk) : ∀ s : Mplcb,
    (mplWakeupLoop s queue).2 = [] ∧ SameMpl s (mplWakeupLoop s queue).1 ∨
      ∀ freed, (mplWakeupLoop s queue).2.foldl MplEvent.trackFreed freed = [] := by
  induction queue with
  | nil => exact fun s => Or.inl ⟨rfl, rfl, rfl, rfl⟩
  | cons top queue ih =>
    intro s
    rw [mplWakeupLoop]
    by_cases hmax : (s.mpl top).blksz > maxFreeSize s
    · rw [if_pos hmax]
      exact Or.inl ⟨rfl, rfl, rfl, rfl⟩
    · rw [if_neg hmax]
      refine Or.inr fun freed => ?_
      -- nothing is released after the first block is served
      rcases getBlk s (s.mpl top).blksz with ⟨blk, s'⟩
      show (mplWakeupLoop s' queue).2.foldl MplEvent.trackFreed [] = []
      rcases ih s' with ⟨e, -⟩ | h
      · rw [e]
        rfl
      · exact h []

theorem FreedInv.wakeup (inv : FreedInv base size s out freed) :
    FreedInv base size (mplWakeup s).1 ((mplWakeup s).2.foldl MplEvent.track out)
      ((mplWakeup s).2.foldl MplEvent.trackFreed freed) := by
  have inv' := inv.toMplInv.wakeup
  rcases mplWakeupLoop_freed s.wait_queue s with ⟨e, same⟩ | h
  · have e : (mplWakeup s).2 = [] := e
    rw [e] at inv' ⊢
    exact inv.congr inv' same.areaque same.mplsz same.mem
  · have h : (mplWakeup s).2.foldl MplEvent.trackFreed freed = [] := h freed
    rw [h]
    exact inv'.noneFreed

theorem getBlk_none_same {blksz : ℤ} (h : (getBlk s blksz).1 = none) : (getBlk s blksz).2 = s := by
  unfold getBlk at h ⊢
  dsimp only at h ⊢
  split_ifs at h ⊢
  rfl

/-- A call that gets no block leaves the memory alone. -/
theorem tkGetMpl_freed (s : Mplcb) (ddsp : Bool) (prot : ER) (self : Tsk) (asked tmout : ℤ) :
    (SameMpl s (tkGetMpl s ddsp prot self asked tmout).1 ∧
        (∀ freed, (tkGetMpl s ddsp prot self asked tmout).2.foldl MplEvent.trackFreed freed =
          freed) ∧
        ∀ out, (tkGetMpl s ddsp prot self asked tmout).2.foldl MplEvent.track out = out) ∨
      ∀ freed, (tkGetMpl s ddsp prot self asked tmout).2.foldl MplEvent.trackFreed freed = [] := by
  have same : SameMpl s s := ⟨rfl, rfl, rfl⟩
  unfold tkGetMpl
  by_cases hpos : ¬asked > 0
  · rw [if_pos hpos]; exact Or.inl ⟨same, fun _ => rfl, fun _ => rfl⟩
  rw [if_neg hpos]
  by_cases htm : ¬tmout ≥ TMO_FEVR
  · rw [if_pos htm]; exact Or.inl ⟨same, fun _ => rfl, fun _ => rfl⟩
  rw [if_neg htm]
  by_cases hd : ddsp = true
  · rw [if_pos hd]; exact Or.inl ⟨same, fun _ => rfl, fun _ => rfl⟩
  rw [if_neg hd]
  by_cases hprot : prot ≠ E_OK
  · simp only [if_pos hprot]; exact Or.inl ⟨same, fun _ => rfl, fun _ => rfl⟩
  simp only [if_neg hprot]
  by_cases hmax : roundSize asked > s.mplsz
  · rw [if_pos hmax]; exact Or.inl ⟨same, fun _ => rfl, fun _ => rfl⟩
  rw [if_neg hmax]
  by_cases hdis : isDiswai s.mplatr (s.waitmask self) TTW_MPL = true
  · rw [if_pos hdis]; exact Or.inl ⟨same, fun _ => rfl, fun _ => rfl⟩
  rw [if_neg hdis]
  by_cases htop : gcbTopOfWaitQueue s.mplatr s.priority self s.wait_queue = self
  · rw [if_pos htop]
    rcases hget : getBlk s (roundSize asked) with ⟨_ | blk, s'⟩
    · have hs : s' = s := by
        have h := @getBlk_none_same s (roundSize asked) (by rw [hget])
        rwa [hget] at h
      subst hs
      left
      dsimp only
      rw [if_neg hdis]
      split_ifs <;> exact ⟨⟨rfl, rfl, rfl⟩, fun _ => rfl, fun _ => rfl⟩
    · exact Or.inr fun _ => rfl
  · rw [if_neg htop]
    left
    dsimp only
    rw [if_neg hdis]
    split_ifs <;> exact ⟨⟨rfl, rfl, rfl⟩, fun _ => rfl, fun _ => rfl⟩

theorem FreedInv.get (inv : FreedInv base size s out freed) (ddsp : Bool) (prot : ER) {self : Tsk}
    (tmout : ℤ) (hself : self ∉ s.wait_queue) (hask : asked ≤ 2 ^ 31 - 8) :
    FreedInv base size (tkGetMpl s ddsp prot self asked tmout).1
      ((tkGetMpl s ddsp prot self asked tmout).2.foldl MplEvent.track out)
      ((tkGetMpl s ddsp prot self asked tmout).2.foldl MplEvent.trackFreed freed) := by
  have inv' := inv.toMplInv.get ddsp prot tmout hself hask
  rcases tkGetMpl_freed s ddsp prot self asked tmout with ⟨same, e, e'⟩ | e
  · rw [e'] at inv'
    rw [e, e']
    exact inv.congr inv' same.areaque same.mplsz same.mem
  · rw [e]
    exact inv'.noneFreed

/-- **Release.** -/
theorem FreedInv.rel (inv : FreedInv base size s out freed) (ddsp : Bool) (prot : ER)
    (hblk : blk ∈ out.map Prod.fst) :
    FreedInv base size (tkRelMpl s ddsp prot blk).1 ((tkRelMpl s ddsp prot blk).2.foldl
      MplEvent.track out)
      ((tkRelMpl s ddsp prot blk).2.foldl MplEvent.trackFreed freed) := by
  unfold tkRelMpl
  by_cases hd : ddsp = true
  · rw [if_pos hd]; exact inv
  rw [if_neg hd]
  by_cases hprot : prot ≠ E_OK
  · rw [if_pos hprot]; exact inv
  rw [if_neg hprot]
  by_cases hrange : blk < (s.mem s.areaque).next ∨ blk > (s.mem s.areaque).prev
  · rw [if_pos hrange]; exact inv
  rw [if_neg hrange]
  obtain ⟨areas, o, hfreed⟩ := inv.shows
  obtain ⟨mem, areas', e, o', hretired⟩ := inv.toPoolInv.relBlk_heap hblk o
  rw [e]
  have inv' : FreedInv base size { s with mem := mem } (out.filter fun o => o.1 ≠ blk)
      (blk :: freed) := by
    refine ⟨⟨⟨inv.even, inv.lt, areas', o'⟩, inv.waiting⟩, areas', o', fun b hb => hretired _ ?_⟩
    rcases List.mem_cons.mp hb with rfl | hb
    · exact Or.inr rfl
    · exact Or.inl (hfreed b hb)
  exact inv'.wakeup

theorem FreedInv.write (inv : FreedInv base size s out freed) {mem : Mem}
    (hm : ∀ z, (∀ o ∈ out, z < o.1 ∨ (o.1 : ℤ) + o.2 ≤ z) → mem z = s.mem z) :
    FreedInv base size { s with mem := mem } out freed := by
  obtain ⟨areas, o, hfreed⟩ := inv.shows
  refine ⟨⟨inv.toPoolInv.write hm, inv.waiting⟩, areas, o.write fun z _ hz =>
    hm z hz, fun b hb => ?_⟩
  obtain ⟨hidle, hunused⟩ := hfreed b hb
  refine ⟨hidle, ?_⟩
  -- no block that is outstanding reaches there
  rw [tagAt_eq_of_eq (hm _ fun p hp => ?_)]
  · exact hunused
  · obtain ⟨G, heap⟩ := o.heap
    obtain ⟨a, ha, hua, hfirst, hlt⟩ := hidle
    obtain ⟨u, hu, hused, hup, hle⟩ := o.handed.large p hp
    have hmem : a ∈ areasOf [⟨base, areas, base + QUEUESZ + size⟩] := by rwa [areasOf_pool]
    rcases heap.area_eq_or_apart hmem hu with rfl | hau | hau
    · exact absurd hused hua
    · omega
    · omega

theorem FreedInv.run (inv : FreedInv base size s out freed) {op : MplOp} (hop : op.Legal s out) :
    FreedInv base size (op.run s).1 ((op.run s).2.foldl MplEvent.track out)
      ((op.run s).2.foldl MplEvent.trackFreed freed) := by
  have hleave (t : Tsk) : FreedInv base size { s with wait_queue := s.wait_queue.erase t }
      out freed :=
    inv.congr (inv.toMplInv.subset (List.erase_subset (a := t))) rfl rfl rfl
  cases op with
  | get ddsp prot self asked tmout => exact inv.get ddsp prot tmout hop.1 hop.2
  | rel ddsp prot blk => exact inv.rel ddsp prot hop
  | releaseWaiter t ercd => exact (hleave t).wakeup
  | terminateWaiter t => exact (hleave t).wakeup
  | chgPri t priority =>
    have hset : FreedInv base size { s with priority := Function.update s.priority t priority }
        out freed :=
      inv.congr ⟨inv.toPoolInv.congr rfl rfl rfl, inv.waiting⟩ rfl rfl rfl
    unfold MplOp.run chgWaiterPri
    by_cases hook : t ∈ s.wait_queue ∧ s.mplatr &&& TA_TPRI ≠ 0
    · simp only [if_pos hook]
      unfold mplChgPri
      rw [if_pos (Int.natCast_nonneg _)]
      refine FreedInv.wakeup (hset.congr (hset.toMplInv.subset ?_) rfl rfl rfl)
      exact (gcbChangePriority_perm _ hook.1).subset
    · simp only [if_neg hook]
      exact hset
  | setWaitmask t waitmask =>
    exact inv.congr ⟨inv.toPoolInv.congr rfl rfl rfl, inv.waiting⟩ rfl rfl rfl
  | write mem => exact inv.write hop

theorem MplRun.freedInv {s₀ : Mplcb} (inv : MplInv base size s₀ []) (run : MplRun s₀ s h) :
    FreedInv base size s (outstanding h) (freedBlocks h) := by
  induction run with
  | create => exact inv.noneFreed
  | step op _ hop ih =>
    rw [outstanding_append, freedBlocks_append]
    exact ih.run hop

/-! ## Releasing again -/

theorem FreedInv.rel_again (inv : FreedInv base size s out freed) (hblk : blk ∈ freed) :
    tkRelMpl s false E_OK blk = (s, [.relFails E_PAR]) := by
  obtain ⟨areas, -, hfreed⟩ := inv.shows
  have hchk : chkAreaFlag s.mem (blk - QUEUESZ) AREA_USE = false :=
    @Retired.chk s.cfg _ _ _ (hfreed blk hblk) (show 1 < 2 ^ 1 by norm_num)
  have hrel : relBlk s blk = (E_PAR, s) := by
    unfold relBlk
    dsimp only
    rw [hchk]
    rfl
  unfold tkRelMpl
  rw [if_neg Bool.false_ne_true, if_neg (not_not_intro rfl), hrel]
  exact ite_self _

theorem mem_freed (hgot : ∀ t asked blk, .got t asked blk ∉ ev)
    (hblk : blk ∈ freed ∨ .released blk ∈ ev) :
    blk ∈ ev.foldl MplEvent.trackFreed freed := by
  induction ev generalizing freed with
  | nil => exact hblk.resolve_right List.not_mem_nil
  | cons e ev ih =>
    refine ih (fun t asked b hb => hgot t asked b (List.mem_cons_of_mem _ hb)) ?_
    cases e with
    | got t asked b => exact absurd List.mem_cons_self (hgot t asked b)
    | released b =>
      rcases hblk with hblk | hblk
      · exact Or.inl (List.mem_cons_of_mem _ hblk)
      · rcases List.mem_cons.mp hblk with e | hblk
        · cases e
          exact Or.inl List.mem_cons_self
        · exact Or.inr hblk
    | getFails t ercd =>
      rcases hblk with hblk | hblk
      · exact Or.inl hblk
      · exact Or.inr (List.mem_of_ne_of_mem (by simp) hblk)
    | relFails ercd =>
      rcases hblk with hblk | hblk
      · exact Or.inl hblk
      · exact Or.inr (List.mem_of_ne_of_mem (by simp) hblk)

/-- **Releasing a block again.** After any run, a block that was released since the last allocation
is refused with `E_PAR`, and nothing changes. -/
theorem mplRun_rel_again {s₀ : Mplcb} {mplatr mempool : ℕ} {mplsz : ℤ} {h₁ h₂ : List MplEvent}
    (h0 : 0 < mplsz) (hle : mplsz ≤ 2 ^ 31 - 8)
    (hm : PoolMem s₀.areaque mempool (roundSize mplsz).toNat)
    (run : MplRun (tkCreMpl s₀ mplatr mplsz mempool) s (h₁ ++ h₂))
    (hgot : ∀ t asked blk, .got t asked blk ∉ h₂) (hrel : .released blk ∈ h₂) :
    tkRelMpl s false E_OK blk = (s, [.relFails E_PAR]) := by
  have inv := run.freedInv (tkCreMpl_inv h0 hle hm)
  rw [freedBlocks_append] at inv
  exact inv.rel_again (mem_freed hgot (Or.inr hrel))

/-- The only block of a pool is released twice. -/
theorem mplRun_rel_again_small :
    let s₁ := ((MplOp.get false E_OK 1 20 TMO_FEVR).run smallMpl).1
    let s₂ := ((MplOp.rel false E_OK 2008).run s₁).1
    tkRelMpl s₂ false E_OK 2008 = (s₂, [.relFails E_PAR]) := by
  intro s₁ s₂
  have e₁ : ((MplOp.get false E_OK 1 20 TMO_FEVR).run smallMpl).2 = [.got 1 20 2008] := by
    decide +kernel
  have e₂ : ((MplOp.rel false E_OK 2008).run s₁).2 = [.released 2008] := by decide +kernel
  have run₁ :=
    MplRun.create.step (.get false E_OK 1 20 TMO_FEVR) (s := smallMpl) ⟨by decide +kernel, by
      decide⟩
  rw [e₁] at run₁
  have run₂ := run₁.step (.rel false E_OK 2008) (show 2008 ∈ [(2008, (20 : ℤ))].map Prod.fst by
    decide)
  rw [e₂] at run₂
  have hm : PoolMem 1000 2000 (roundSize 30).toNat := by
    constructor <;> decide
  exact mplRun_rel_again (by decide) (by decide) hm run₂ (by simp) (by simp)

end SmpTKernel
