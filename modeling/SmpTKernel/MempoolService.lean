import SmpTKernel.MempoolInv

/-!
# Service of the tasks that wait for a pool

Whenever the largest free area or the head of the wait queue of a pool may have changed,
`mpl_wakeup` runs. `Served` says what this achieves: the head asks for more than there is. Blocks
are handed out in the order of the queue, in which a task that calls `tk_get_mpl` has its place as
well.
-/

namespace SmpTKernel

open LinkRing Words Tiling

variable {base size fin : ℕ} {s : Mplcb} {out : List (ℕ × ℤ)} {asked blksz : ℤ}
  {areas : List HeapArea} {G : List (ℕ × List ℕ)}

/-! ## The largest free area -/

/-- `MaxFreeSize` is the size of the largest free area, and 0 if there is none. -/
theorem Heap.maxFreeSize_spec (h : Heap s.cfg mplTags s.mem [⟨base, areas, fin⟩] G)
    (ok : CfgOk s.cfg mplTags) :
    (∀ a ∈ areas, a.st = .free → (a.size : ℤ) ≤ maxFreeSize s) ∧
      (maxFreeSize s = 0 ∨ ∃ a ∈ areas, a.st = .free ∧ (a.size : ℤ) = maxFreeSize s) := by
  have hempty := h.buckets.rings.head.next_eq_self_iff
  have hprev := h.buckets.rings.head.prev_head
  have hsorted := h.buckets.sorted
  unfold maxFreeSize
  -- a free area is in one of the buckets, and as large as the others there
  have hbucket {a : HeapArea} (ha : a ∈ areas) (hf : a.st = .free) :
      ∃ g ∈ G, sizeAt s.mem g.1 = a.size := by
    have ha' : a ∈ areasOf [⟨base, areas, fin⟩] := by rwa [areasOf_pool]
    obtain ⟨g, hg, hx⟩ := mem_nodes.mp (h.mem_members.mpr ⟨a, ha', hf, rfl⟩)
    refine ⟨g, hg, ?_⟩
    rw [← h.sizeAt_eq ha']
    rcases List.mem_cons.mp hx with e | hx
    · rw [e]
    · exact (h.buckets.same g hg _ hx).symm
  rcases List.eq_nil_or_concat' G with rfl | ⟨G', g, rfl⟩
  · rw [if_pos (decide_eq_true (hempty.mpr rfl))]
    refine ⟨fun a ha hf => ?_, Or.inl rfl⟩
    obtain ⟨g, hg, -⟩ := hbucket ha hf
    exact absurd hg List.not_mem_nil
  · have hne : (G' ++ [g]).map Prod.fst ≠ [] := by simp
    rw [if_neg (by simpa using fun c => hne (hempty.mp c)), hprev, List.map_append,
      List.map_singleton, List.getLastD_concat]
    have hg : g ∈ G' ++ [g] := List.mem_append_right G' (List.mem_singleton.mpr rfl)
    obtain ⟨a, ha, hf, e⟩ := h.mem_members.mp (mem_nodes.mpr ⟨g, hg, List.mem_cons_self⟩)
    have hlast : freeSize s.cfg s.mem g.1 = a.size := by rw [e, h.freeSize_eq ok ha]
    rw [hlast]
    refine ⟨fun b hb hbf => ?_, Or.inr ⟨a, by rwa [areasOf_pool] at ha, hf, rfl⟩⟩
    obtain ⟨g', hg', hsize⟩ := hbucket hb hbf
    have hasize : sizeAt s.mem g.1 = a.size := by rw [e, h.sizeAt_eq ha]
    rcases List.mem_append.mp hg' with hg' | hg'
    · -- the buckets before the last one are of smaller areas
      rw [List.map_append, List.pairwise_append] at hsorted
      have : sizeAt s.mem g'.1 < sizeAt s.mem g.1 :=
        hsorted.2.2 _ (List.mem_map.mpr ⟨g', hg', rfl⟩) _ (List.mem_singleton.mpr rfl)
      omega
    · rw [List.mem_singleton.mp hg'] at hsize
      omega

theorem Heap.maxFreeSize_le {areas' : List HeapArea} {G' : List (ℕ × List ℕ)}
    (h : Heap s.cfg mplTags s.mem [⟨base, areas, fin⟩] G) (ok : CfgOk s.cfg mplTags) (s' : Mplcb)
    (h' : Heap s'.cfg mplTags s'.mem [⟨base, areas', fin⟩] G') (ok' : CfgOk s'.cfg mplTags)
    (hsub : ∀ b ∈ areas', b.st = .free → ∃ a ∈ areas, a.st = .free ∧ b.size ≤ a.size) :
    maxFreeSize s' ≤ maxFreeSize s := by
  obtain ⟨hbound, hmax⟩ := h.maxFreeSize_spec ok
  rcases (h'.maxFreeSize_spec ok').2 with hzero | ⟨b, hb, hbf, e⟩
  · rw [hzero]
    rcases hmax with h0 | ⟨a, -, -, ha⟩
    · rw [h0]
    · rw [← ha]
      exact Int.natCast_nonneg _
  · obtain ⟨a, ha, hf, hle⟩ := hsub b hb hbf
    rw [← e]
    exact (Int.ofNat_le.mpr hle).trans (hbound a ha hf)

/-- A block that cannot be taken is larger than all that is free. -/
theorem PoolInv.getBlk_none (inv : PoolInv base size s out) (hpos : 0 < blksz)
    (hnone : (SmpTKernel.getBlk s blksz).1 = none) : maxFreeSize s < blksz := by
  obtain ⟨areas, ⟨G, h⟩, -, -⟩ := inv.heap
  unfold SmpTKernel.getBlk at hnone
  by_cases hs : searchFreeArea s.cfg s.mem blksz = s.cfg.freeque
  · rcases h.search inv.cfgOk blksz with ⟨-, hall⟩ | ⟨hne, -⟩
    · rcases (h.maxFreeSize_spec inv.cfgOk).2 with h0 | ⟨a, ha, hf, e⟩
      · rwa [h0]
      · rw [← e]
        exact hall a (by rwa [areasOf_pool]) hf
    · exact absurd hs hne
  · rw [if_neg hs] at hnone
    exact absurd hnone nofun

/-- Taking a block does not make the largest free area larger. -/
theorem PoolInv.maxFreeSize_getBlk (inv : PoolInv base size s out)
    (h16 : (MIN_FRAGMENT : ℤ) ≤ blksz) (hdvd : (QUEUESZ : ℤ) ∣ blksz) :
    maxFreeSize (SmpTKernel.getBlk s blksz).2 ≤ maxFreeSize s := by
  obtain ⟨areas, ⟨G, h⟩, -, -⟩ := inv.heap
  have ok := inv.cfgOk
  have hpos : 0 < blksz := lt_of_lt_of_le (by decide : (0 : ℤ) < MIN_FRAGMENT) h16
  unfold SmpTKernel.getBlk
  by_cases hs : searchFreeArea s.cfg s.mem blksz = s.cfg.freeque
  · rw [if_pos hs]
  · rw [if_neg hs]
    obtain ⟨a, ha, hf, hsearch, hle⟩ := ((h.search ok blksz).resolve_left fun hc => hs hc.1).2
    rw [areasOf_pool] at ha
    obtain ⟨l, r, rfl⟩ := List.append_of_mem ha
    have hlist : l ++ a :: r = l ++ [a] ++ r := by rw [List.append_assoc, List.singleton_append]
    have h' : Heap s.cfg mplTags s.mem
        ((⟨[], base, l, r, base + QUEUESZ + size, []⟩ : Place).fill [a]) G := by
      rw [hlist] at h
      exact h
    obtain ⟨G₁, h₁⟩ := h'.take ok hf
    obtain ⟨n, rest, G₂, -, h₂, -, hrest, -⟩ :=
      h₁.alloc ok (nofun : AreaState.loose ≠ .free) h16 hdvd hle
    rw [hsearch, Nat.add_sub_cancel]
    refine h.maxFreeSize_le ok { s with mem := _ } h₂ ok fun b hb hbf => ?_
    simp only [List.append_assoc, List.mem_append, List.mem_cons] at hb
    rcases hb with hb | (rfl | hb) | hb
    · exact ⟨b, by simp [hb], hbf, le_rfl⟩
    · exact absurd hbf nofun
    · -- the rest of the area that was cut
      rcases hrest with ⟨-, rfl, -⟩ | ⟨k, hk, rfl, -⟩
      · exact absurd hb List.not_mem_nil
      · refine ⟨a, by simp, hf, ?_⟩
        have hk : a.size = n + QUEUESZ + k := hk
        rw [List.mem_singleton.mp hb, hk]
        exact Nat.le_add_left k _
    · exact ⟨b, by simp [hb], hbf, le_rfl⟩

theorem PoolInv.maxFreeSize_write (inv : PoolInv base size s out) {mem : Mem}
    (hm : ∀ z, (∀ o ∈ out, z < o.1 ∨ (o.1 : ℤ) + o.2 ≤ z) → mem z = s.mem z) :
    maxFreeSize { s with mem := mem } ≤ maxFreeSize s := by
  obtain ⟨areas, o⟩ := inv.heap
  obtain ⟨G, h⟩ := o.heap
  obtain ⟨G', h'⟩ := (o.write fun z _ hz => hm z hz).heap
  exact h.maxFreeSize_le inv.cfgOk { s with mem := mem } h' inv.cfgOk fun b hb hf =>
    ⟨b, hb, hf, le_rfl⟩

/-! ## Handing out -/

/-- The task that an event gives a block. -/
def MplEvent.granted : MplEvent → Option Tsk
  | got t _ _ => some t
  | released _ | getFails .. | relFails .. => none

/-- The tasks that get a block, one after the other. -/
def granted (ev : List MplEvent) : List Tsk := ev.filterMap MplEvent.granted

/-- Nobody waits in vain: the head of the queue asks for more than there is. The queue is
ordered. -/
structure Served (s : Mplcb) : Prop where
  head : ∀ t ∈ s.wait_queue.head?, maxFreeSize s < (s.mpl t).blksz
  nodup : s.wait_queue.Nodup
  sorted : s.mplatr &&& TA_TPRI ≠ 0 → s.wait_queue.Pairwise fun t u => s.priority t ≤ s.priority u

theorem getBlk_frame (s : Mplcb) (blksz : ℤ) :
    ∃ mem, (SmpTKernel.getBlk s blksz).2 = { s with mem := mem } := by
  unfold SmpTKernel.getBlk
  by_cases hs : searchFreeArea s.cfg s.mem blksz = s.cfg.freeque
  · rw [if_pos hs]
    exact ⟨s.mem, rfl⟩
  · rw [if_neg hs]
    exact ⟨_, rfl⟩

/-- **The hand-out loop.** Tasks get their blocks from the head of the queue on, until the head asks
for more than there is. -/
theorem mplWakeupLoop_spec (queue : List Tsk) : ∀ s : Mplcb,
    let r := mplWakeupLoop s queue
    granted r.2 ++ r.1.wait_queue = queue ∧
      (∀ t ∈ r.1.wait_queue.head?, maxFreeSize r.1 < (r.1.mpl t).blksz) ∧
      r.1.mplatr = s.mplatr ∧ r.1.priority = s.priority ∧ r.1.mpl = s.mpl := by
  induction queue with
  | nil => exact fun s => ⟨rfl, fun t ht => absurd ht nofun, rfl, rfl, rfl⟩
  | cons top queue ih =>
    intro s
    rw [mplWakeupLoop]
    by_cases hmax : (s.mpl top).blksz > maxFreeSize s
    · rw [if_pos hmax]
      refine ⟨rfl, fun t ht => ?_, rfl, rfl, rfl⟩
      rw [← Option.mem_some_iff.mp ht]
      exact hmax
    · rw [if_neg hmax]
      obtain ⟨mem, e⟩ := getBlk_frame s (s.mpl top).blksz
      obtain ⟨hg, hhead, hatr, hpri, hmpl⟩ := ih { s with mem := mem }
      simp only [e]
      exact ⟨congrArg (top :: ·) hg, hhead, hatr, hpri, hmpl⟩

/-- After the loop the pool is served, whatever happened before. -/
theorem mplWakeup_served (nodup : s.wait_queue.Nodup)
    (sorted : s.mplatr &&& TA_TPRI ≠ 0 → s.wait_queue.Pairwise fun t u =>
      s.priority t ≤ s.priority u) :
    Served (mplWakeup s).1 := by
  obtain ⟨hg, hhead, hatr, hpri, -⟩ := mplWakeupLoop_spec s.wait_queue s
  have hsub : (mplWakeup s).1.wait_queue.Sublist s.wait_queue := by
    conv_rhs => rw [← hg]
    exact List.sublist_append_right _ _
  refine ⟨hhead, nodup.sublist hsub, fun htpri => ?_⟩
  have hpri : (mplWakeup s).1.priority = s.priority := hpri
  have hatr : (mplWakeup s).1.mplatr = s.mplatr := hatr
  rw [hpri]
  exact (sorted (hatr ▸ htpri)).sublist hsub

/-! ## System calls -/

/-- The three ways in which `tk_get_mpl` goes on. -/
inductive GetMpl (s : Mplcb) (self : Tsk) (asked : ℤ) : Mplcb × List MplEvent → Prop
  | fails (ercd : ER) (mpl : Tsk → WinfoMpl) (others : ∀ t ≠ self, mpl t = s.mpl t) :
      GetMpl s self asked ({ s with mpl := mpl }, [.getFails self ercd])
  | takes (blk : ℕ) (pos : 0 < asked)
      (top : gcbTopOfWaitQueue s.mplatr s.priority self s.wait_queue = self) :
      GetMpl s self asked ((getBlk s (roundSize asked)).2, [.got self asked blk])
  | waits (pos : 0 < asked) (none : gcbTopOfWaitQueue s.mplatr s.priority self s.wait_queue = self →
        (getBlk s (roundSize asked)).1 = none) :
      GetMpl s self asked ({ s with
        mpl := Function.update s.mpl self ⟨roundSize asked, asked⟩
        wait_queue := gcbInsert s.mplatr s.priority self s.wait_queue }, [])

theorem getBlk_eq_of_none (hnone : (getBlk s blksz).1 = none) : getBlk s blksz = (none, s) := by
  unfold getBlk at hnone ⊢
  by_cases hs : searchFreeArea s.cfg s.mem blksz = s.cfg.freeque
  · rw [if_pos hs]
  · rw [if_neg hs] at hnone
    exact absurd hnone nofun

theorem tkGetMpl_cases (s : Mplcb) (ddsp : Bool) (prot : ER) (self : Tsk) (asked tmout : ℤ) :
    GetMpl s self asked (tkGetMpl s ddsp prot self asked tmout) := by
  have hfail (ercd : ER) : GetMpl s self asked (s, [.getFails self ercd]) :=
    .fails ercd s.mpl fun t _ => rfl
  unfold tkGetMpl
  by_cases hpos : ¬asked > 0
  · rw [if_pos hpos]; exact hfail E_PAR
  rw [if_neg hpos]
  by_cases htm : ¬tmout ≥ TMO_FEVR
  · rw [if_pos htm]; exact hfail E_PAR
  rw [if_neg htm]
  by_cases hd : ddsp = true
  · rw [if_pos hd]; exact hfail E_CTX
  rw [if_neg hd]
  by_cases hprot : prot ≠ E_OK
  · simp only [if_pos hprot]; exact hfail prot
  simp only [if_neg hprot]
  by_cases hmax : roundSize asked > s.mplsz
  · rw [if_pos hmax]; exact hfail E_PAR
  rw [if_neg hmax]
  by_cases hdis : isDiswai s.mplatr (s.waitmask self) TTW_MPL = true
  · rw [if_pos hdis]; exact hfail E_DISWAI
  rw [if_neg hdis]
  have hpos : 0 < asked := not_not.mp hpos
  -- no block for the call: polling ends it
  have hblock (hnone : gcbTopOfWaitQueue s.mplatr s.priority self s.wait_queue = self →
        (getBlk s (roundSize asked)).1 = none) :
      GetMpl s self asked (if tmout = TMO_POL then
          ({ s with mpl := Function.update s.mpl self ⟨roundSize asked, asked⟩ },
            [.getFails self E_TMOUT])
        else ({ s with
          mpl := Function.update s.mpl self ⟨roundSize asked, asked⟩
          wait_queue := gcbInsert s.mplatr s.priority self s.wait_queue }, [])) := by
    by_cases hpol : tmout = TMO_POL
    · rw [if_pos hpol]
      exact .fails E_TMOUT _ fun t ht => Function.update_of_ne ht _ _
    · rw [if_neg hpol]
      exact .waits hpos hnone
  by_cases htop : gcbTopOfWaitQueue s.mplatr s.priority self s.wait_queue = self
  · rw [if_pos htop]
    rcases hb : (getBlk s (roundSize asked)).1 with _ | blk
    · rw [getBlk_eq_of_none hb]
      simp only [if_neg hdis]
      exact hblock fun _ => hb
    · have htakes : GetMpl s self asked ((getBlk s (roundSize asked)).2, [.got self asked blk]) :=
        .takes blk hpos htop
      rcases e : getBlk s (roundSize asked) with ⟨b, s'⟩
      rw [e] at hb htakes
      rw [show b = some blk from hb]
      exact htakes
  · rw [if_neg htop]
    simp only [if_neg hdis]
    exact hblock fun c => absurd c htop

/-- The queue in which an operation hands out blocks; a task that asks for one has its place
there. -/
def MplOp.queue (s : Mplcb) : MplOp → List Tsk
  | get _ _ self _ _ => gcbInsert s.mplatr s.priority self s.wait_queue
  | releaseWaiter t _ | terminateWaiter t => s.wait_queue.erase t
  | chgPri t priority =>
    if t ∈ s.wait_queue ∧ s.mplatr &&& TA_TPRI ≠ 0 then
      gcbChangePriority (Function.update s.priority t priority) t s.wait_queue
    else s.wait_queue
  | rel .. | setWaitmask .. | write _ => s.wait_queue

theorem gcbInsert_sorted {self : Tsk}
    (sorted : s.mplatr &&& TA_TPRI ≠ 0 → s.wait_queue.Pairwise fun t u =>
      s.priority t ≤ s.priority u) (htpri : s.mplatr &&& TA_TPRI ≠ 0) :
    (gcbInsert s.mplatr s.priority self s.wait_queue).Pairwise fun t u => s.priority t ≤
    s.priority u := by
  rw [gcbInsert, if_pos htpri]
  exact queueInsertTpri_sorted (sorted htpri)

theorem gcbInsert_nodup {self : Tsk} (nodup : s.wait_queue.Nodup) (hself : self ∉ s.wait_queue) :
    (gcbInsert s.mplatr s.priority self s.wait_queue).Nodup :=
  (gcbInsert_perm _ _ _ _).nodup_iff.mpr (List.nodup_cons.mpr ⟨hself, nodup⟩)

/-- **A call for a block.** A newcomer takes a block only ahead of all who wait. -/
theorem Served.get (sv : Served s) (inv : MplInv base size s out) (ddsp : Bool) (prot : ER)
    {self : Tsk} (tmout : ℤ) (hself : self ∉ s.wait_queue) (hask : asked ≤ 2 ^ 31 - 8) :
    let r := tkGetMpl s ddsp prot self asked tmout
    Served r.1 ∧ (granted r.2 ++ r.1.wait_queue = gcbInsert s.mplatr s.priority self s.wait_queue ∨
      (∃ ercd, r.2 = [.getFails self ercd]) ∧ r.1.wait_queue = s.wait_queue) := by
  have hhead {t : Tsk} (ht : t ∈ s.wait_queue.head?) : t ≠ self :=
    ne_of_mem_of_not_mem (List.mem_of_mem_head? ht) hself
  intro r
  have hr : GetMpl s self asked r := tkGetMpl_cases s ddsp prot self asked tmout
  clear_value r
  cases hr with
  | fails ercd mpl others =>
    refine ⟨⟨fun t ht => ?_, sv.nodup, sv.sorted⟩, Or.inr ⟨⟨ercd, rfl⟩, rfl⟩⟩
    show maxFreeSize s < (mpl t).blksz
    rw [others t (hhead ht)]
    exact sv.head t ht
  | takes blk pos top =>
    obtain ⟨h16, hdvd, -⟩ := roundSize_spec pos hask
    have hle := inv.toPoolInv.maxFreeSize_getBlk h16 hdvd
    obtain ⟨mem, e⟩ := getBlk_frame s (roundSize asked)
    rw [e] at hle ⊢
    refine ⟨⟨fun t ht => hle.trans_lt (sv.head t ht), sv.nodup, sv.sorted⟩, Or.inl ?_⟩
    exact (gcbInsert_of_top hself top).symm
  | waits pos none =>
    refine ⟨⟨fun t ht => ?_, gcbInsert_nodup sv.nodup hself, gcbInsert_sorted sv.sorted⟩,
      Or.inl rfl⟩
    show maxFreeSize s < (Function.update s.mpl self ⟨roundSize asked, asked⟩ t).blksz
    obtain ⟨h16, -, -⟩ := roundSize_spec pos hask
    have hpos : 0 < roundSize asked := lt_of_lt_of_le (by decide : (0 : ℤ) < MIN_FRAGMENT) h16
    rcases head?_gcbInsert ht with ⟨rfl, htop⟩ | ht
    · -- it waits at the head, and there was nothing for it
      rw [Function.update_self]
      exact inv.toPoolInv.getBlk_none hpos (none htop)
    · rw [Function.update_of_ne (hhead ht)]
      exact sv.head t ht

theorem mplWakeup_granted (s : Mplcb) :
    granted (mplWakeup s).2 ++ (mplWakeup s).1.wait_queue = s.wait_queue :=
  (mplWakeupLoop_spec s.wait_queue s).1

theorem Served.rel (sv : Served s) (ddsp : Bool) (prot : ER) (blk : ℕ) :
    let r := tkRelMpl s ddsp prot blk
    Served r.1 ∧ granted r.2 ++ r.1.wait_queue = s.wait_queue := by
  unfold tkRelMpl
  by_cases hd : ddsp = true
  · rw [if_pos hd]; exact ⟨sv, rfl⟩
  rw [if_neg hd]
  by_cases hprot : prot ≠ E_OK
  · rw [if_pos hprot]; exact ⟨sv, rfl⟩
  rw [if_neg hprot]
  by_cases hrange : blk < (s.mem s.areaque).next ∨ blk > (s.mem s.areaque).prev
  · rw [if_pos hrange]; exact ⟨sv, rfl⟩
  rw [if_neg hrange]
  have hrel : relBlk s blk = (E_PAR, s) ∨ ∃ mem, relBlk s blk = (E_OK, { s with mem := mem }) := by
    unfold relBlk
    by_cases hchk : (!chkAreaFlag s.mem (blk - QUEUESZ) AREA_USE) = true
    · exact Or.inl (if_pos hchk)
    · exact Or.inr ⟨_, if_neg hchk⟩
  rcases hrel with e | ⟨mem, e⟩
  · rw [e]
    exact ⟨sv, rfl⟩
  · rw [e]
    exact ⟨mplWakeup_served (s := { s with mem := mem }) sv.nodup sv.sorted,
      mplWakeup_granted { s with mem := mem }⟩

/-- A waiting task leaves, and the pool goes on without it. -/
theorem Served.relWai (sv : Served s) (t : Tsk) :
    let r := mplRelWai { s with wait_queue := s.wait_queue.erase t } t
    Served r.1 ∧ granted r.2 ++ r.1.wait_queue = s.wait_queue.erase t :=
  ⟨mplWakeup_served (s := { s with wait_queue := s.wait_queue.erase t }) (sv.nodup.erase t)
    fun htpri => (sv.sorted htpri).sublist List.erase_sublist,
    mplWakeup_granted { s with wait_queue := s.wait_queue.erase t }⟩

/-- The order of the tasks whose priority does not change. -/
theorem pairwise_update {priority : Tsk → ℕ} {queue : List Tsk} {t : Tsk} (ht : t ∉ queue) (p : ℕ)
    (sorted : queue.Pairwise fun u v => priority u ≤ priority v) :
    queue.Pairwise fun u v => Function.update priority t p u ≤ Function.update priority t p v := by
  refine sorted.imp_of_mem fun hu hv huv => ?_
  rwa [Function.update_of_ne (ne_of_mem_of_not_mem hu ht), Function.update_of_ne
    (ne_of_mem_of_not_mem hv ht)]

theorem Served.chgPri (sv : Served s) (t : Tsk) (p : ℕ) :
    let r := chgWaiterPri s t p
    Served r.1 ∧ granted r.2 ++ r.1.wait_queue = (MplOp.chgPri t p).queue s := by
  unfold chgWaiterPri MplOp.queue
  by_cases hook : t ∈ s.wait_queue ∧ s.mplatr &&& TA_TPRI ≠ 0
  · simp only [if_pos hook]
    unfold mplChgPri
    rw [if_pos (Int.natCast_nonneg _)]
    set q := gcbChangePriority (Function.update s.priority t p) t s.wait_queue with hq
    refine ⟨mplWakeup_served ((gcbChangePriority_perm _ hook.1).nodup_iff.mpr sv.nodup)
      fun htpri => ?_, mplWakeup_granted _⟩
    -- only the task that is queued again has another priority
    exact queueInsertTpri_sorted (pairwise_update sv.nodup.not_mem_erase p
      ((sv.sorted htpri).sublist List.erase_sublist))
  · simp only [if_neg hook]
    refine ⟨⟨sv.head, sv.nodup, fun htpri => ?_⟩, rfl⟩
    exact pairwise_update (fun ht => hook ⟨ht, htpri⟩) p (sv.sorted htpri)

/-! ## Runs -/

/-- **Each step.** The tasks that get a block are the first ones of the queue, in this order; a call
that fails leaves the queue alone. -/
theorem Served.run (sv : Served s) (inv : MplInv base size s out) {op : MplOp}
    (hop : op.Legal s out) :
    Served (op.run s).1 ∧ (granted (op.run s).2 ++ (op.run s).1.wait_queue = op.queue s ∨
      (∃ self ercd, (op.run s).2 = [.getFails self ercd]) ∧
      (op.run s).1.wait_queue = s.wait_queue) := by
  cases op with
  | get ddsp prot self asked tmout =>
    obtain ⟨hsv, hg⟩ := sv.get inv ddsp prot tmout hop.1 hop.2
    exact ⟨hsv, hg.imp_right fun ⟨⟨ercd, e⟩, hq⟩ => ⟨⟨self, ercd, e⟩, hq⟩⟩
  | rel ddsp prot blk => exact (sv.rel ddsp prot blk).imp_right Or.inl
  | releaseWaiter t ercd => exact (sv.relWai t).imp_right Or.inl
  | terminateWaiter t => exact (sv.relWai t).imp_right Or.inl
  | chgPri t priority => exact (sv.chgPri t priority).imp_right Or.inl
  | setWaitmask t waitmask => exact ⟨⟨sv.head, sv.nodup, sv.sorted⟩, Or.inl rfl⟩
  | write mem =>
    have hle := inv.toPoolInv.maxFreeSize_write hop
    exact ⟨⟨fun t ht => hle.trans_lt (sv.head t ht), sv.nodup, sv.sorted⟩, Or.inl rfl⟩

theorem MplRun.served {s₀ : Mplcb} {h : List MplEvent} (inv : MplInv base size s₀ [])
    (sv : Served s₀) (run : MplRun s₀ s h) : Served s := by
  induction run with
  | create => exact sv
  | step op run hop ih => exact (ih.run (run.inv inv) hop).1

theorem ahead_of_all {self : Tsk} (hself : self ∉ s.wait_queue)
    (hfirst : gcbInsert s.mplatr s.priority self s.wait_queue = self :: s.wait_queue)
    (sorted : s.mplatr &&& TA_TPRI ≠ 0 → s.wait_queue.Pairwise fun t u =>
      s.priority t ≤ s.priority u) :
    ∀ u ∈ s.wait_queue, s.mplatr &&& TA_TPRI ≠ 0 ∧ s.priority self < s.priority u := by
  rcases hq : s.wait_queue with _ | ⟨q, qs⟩
  · exact fun u hu => absurd hu List.not_mem_nil
  rw [hq] at hself hfirst sorted
  have hne : q ≠ self := (List.ne_of_not_mem_cons hself).symm
  unfold gcbInsert at hfirst
  by_cases htpri : s.mplatr &&& TA_TPRI ≠ 0
  · rw [if_pos htpri, queueInsertTpri] at hfirst
    by_cases hlt : s.priority q > s.priority self
    · intro u hu
      refine ⟨htpri, ?_⟩
      rcases List.mem_cons.mp hu with rfl | hu
      · exact hlt
      · exact hlt.trans_le ((List.pairwise_cons.mp (sorted htpri)).1 u hu)
    · rw [if_neg hlt] at hfirst
      exact absurd (List.cons.inj hfirst).1 hne
  · rw [if_neg htpri] at hfirst
    exact absurd (List.cons.inj hfirst).1 hne

/-- The current priorities while an operation hands out blocks. -/
def MplOp.priority (s : Mplcb) : MplOp → Tsk → ℕ
  | chgPri t priority => Function.update s.priority t priority
  | get .. | rel .. | releaseWaiter .. | terminateWaiter _ | setWaitmask .. | write _ => s.priority

theorem Served.queue_sorted (sv : Served s) (op : MplOp) (htpri : s.mplatr &&& TA_TPRI ≠ 0) :
    (op.queue s).Pairwise fun t u => op.priority s t ≤ op.priority s u := by
  have sorted := sv.sorted htpri
  cases op with
  | get ddsp prot self asked tmout => exact gcbInsert_sorted sv.sorted htpri
  | releaseWaiter t ercd => exact sorted.sublist List.erase_sublist
  | terminateWaiter t => exact sorted.sublist List.erase_sublist
  | chgPri t p =>
    simp only [MplOp.queue, MplOp.priority]
    by_cases hook : t ∈ s.wait_queue ∧ s.mplatr &&& TA_TPRI ≠ 0
    · rw [if_pos hook]
      exact queueInsertTpri_sorted (pairwise_update sv.nodup.not_mem_erase p
        (sorted.sublist List.erase_sublist))
    · rw [if_neg hook]
      exact pairwise_update (fun ht => hook ⟨ht, htpri⟩) p sorted
  | rel ddsp prot blk => exact sorted
  | setWaitmask t waitmask => exact sorted
  | write mem => exact sorted

/-- A call that gets a block comes before all waiting tasks. -/
theorem Served.got_first (sv : Served s) {ddsp : Bool} {prot : ER} {self : Tsk} {asked tmout : ℤ}
    {blk : ℕ} (hself : self ∉ s.wait_queue)
    (hgot : .got self asked blk ∈ (tkGetMpl s ddsp prot self asked tmout).2) :
    ∀ u ∈ s.wait_queue, s.mplatr &&& TA_TPRI ≠ 0 ∧ s.priority self < s.priority u := by
  have hr := tkGetMpl_cases s ddsp prot self asked tmout
  revert hr hgot
  generalize tkGetMpl s ddsp prot self asked tmout = r
  intro hgot hr
  cases hr with
  | fails ercd mpl others => simp at hgot
  | takes blk pos top => exact ahead_of_all hself (gcbInsert_of_top hself top) sv.sorted
  | waits pos none => exact absurd hgot List.not_mem_nil

/-- **Service of a pool.** After any run the head of the wait queue asks for more than the largest
free area, and the queue of a `TA_TPRI` pool is ordered by priority. An operation gives blocks to
the first tasks of the queue in which a calling task has its place, one after the other, and leaves
the others in the queue, or it is a call that fails; a call that gets a block comes before all
waiting tasks. -/
theorem mplRun_served {s₀ : Mplcb} {mplatr mempool : ℕ} {mplsz : ℤ} {h : List MplEvent}
    (h0 : 0 < mplsz) (hle : mplsz ≤ 2 ^ 31 - 8)
    (hm : PoolMem s₀.areaque mempool (roundSize mplsz).toNat)
    (run : MplRun (tkCreMpl s₀ mplatr mplsz mempool) s h) :
    let fin := mempool + QUEUESZ + (roundSize mplsz).toNat
    (∃ areas : List HeapArea, IsRing (untag 1 s.mem) s.areaque (areas.map Area.addr ++ [fin]) ∧
        Tiles QUEUESZ mempool areas fin ∧
        (∀ a ∈ areas, a.st = if chkAreaFlag s.mem a.addr AREA_USE then .used else .free) ∧
        (∀ a ∈ areas, a.st = .free → (a.size : ℤ) ≤ maxFreeSize s) ∧
        ∀ t ∈ s.wait_queue.head?, (s.mpl t).blksz = roundSize (s.mpl t).asked ∧
          maxFreeSize s < (s.mpl t).blksz ∧ ∀ a ∈ areas, a.st = .free →
          (a.size : ℤ) < (s.mpl t).blksz) ∧
      (s.mplatr &&& TA_TPRI ≠ 0 → s.wait_queue.Pairwise fun t u => s.priority t ≤ s.priority u) ∧
      ∀ op : MplOp, op.Legal s (outstanding h) →
        (granted (op.run s).2 ++ (op.run s).1.wait_queue = op.queue s ∨
          (∃ self ercd, (op.run s).2 = [.getFails self ercd]) ∧
          (op.run s).1.wait_queue = s.wait_queue) ∧
        (s.mplatr &&& TA_TPRI ≠ 0 → (op.queue s).Pairwise fun t u =>
          op.priority s t ≤ op.priority s u) ∧
        ∀ ddsp prot self asked tmout blk, op = .get ddsp prot self asked tmout →
          .got self asked blk ∈ (op.run s).2 →
          ∀ u ∈ s.wait_queue, s.mplatr &&& TA_TPRI ≠ 0 ∧ s.priority self < s.priority u := by
  intro fin
  have inv₀ : MplInv _ _ (tkCreMpl s₀ mplatr mplsz mempool) [] := tkCreMpl_inv h0 hle hm
  have inv := run.inv inv₀
  have sv := run.served inv₀ ⟨nofun, List.nodup_nil, fun _ => List.Pairwise.nil⟩
  obtain ⟨areas, ⟨G, heap⟩, hquiet, -⟩ := inv.heap
  have hmax := (heap.maxFreeSize_spec inv.cfgOk).1
  refine ⟨⟨areas, ?_, heap.tiles _ (List.mem_singleton.mpr rfl), ?_, hmax, fun t ht => ?_⟩,
    sv.sorted, fun op hop => ⟨(sv.run inv hop).2, sv.queue_sorted op, ?_⟩⟩
  · have hring := heap.ring
    rwa [cellsOf, List.flatMap_singleton] at hring
  · exact fun a ha => heap.state_eq ha (hquiet _ (List.mem_singleton.mpr rfl))
  · exact ⟨(inv.waiting t (List.mem_of_mem_head? ht)).blksz, sv.head t ht,
      fun a ha hf => (hmax a ha hf).trans_lt (sv.head t ht)⟩
  · rintro ddsp prot self asked tmout blk rfl hgot
    exact sv.got_first hop.1 hgot

/-- In the pool of 32 bytes the second task waits for more than the 8 bytes that are left. -/
theorem mplRun_served_full :
    let r₁ := (MplOp.get false E_OK 1 20 TMO_FEVR).run smallMpl
    let r₂ := (MplOp.get false E_OK 2 9 TMO_FEVR).run r₁.1
    r₂.1.wait_queue.head? = some 2 ∧ maxFreeSize r₂.1 < (r₂.1.mpl 2).blksz := by
  intro r₁ r₂
  have run₁ :=
    MplRun.create.step (.get false E_OK 1 20 TMO_FEVR) (s := smallMpl) ⟨by decide +kernel, by
      decide⟩
  have run₂ : MplRun smallMpl r₂.1 _ :=
    run₁.step (.get false E_OK 2 9 TMO_FEVR) ⟨by decide +kernel, by decide⟩
  have hm : PoolMem 1000 2000 (roundSize 30).toNat := by
    constructor <;> decide
  have hhead : (2 : Tsk) ∈ r₂.1.wait_queue.head? := by decide +kernel
  obtain ⟨⟨areas, -, -, -, -, hserved⟩, -⟩ := mplRun_served (by decide) (by decide) hm run₂
  exact ⟨hhead, (hserved 2 hhead).2.1⟩

end SmpTKernel
