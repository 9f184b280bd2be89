import SmpTKernel.AreaOwners
import SmpTKernel.Mempool

/-!
# The heap of a memory pool

`MplInv` says that the pool is one block of a heap whose areas in use are the outstanding blocks. It
is kept by allocation, release and the service of waiting tasks, and by whatever the owners write
into their blocks. `MplRun` is any sequence of calls and events.
-/

namespace SmpTKernel

open LinkRing Words Tiling

/-- The flags in a pool: `areaque` and the end marker count as areas in use. -/
def mplTags : BlockTags := ⟨AREA_USE, 0, AREA_USE⟩

/-- The task waits for a block of the rounded size. -/
structure WaitsMpl (w : WinfoMpl) : Prop where
  blksz : w.blksz = roundSize w.asked
  pos : 0 < w.asked
  le : w.asked ≤ 2 ^ 31 - 8

/-- The pool of `size` bytes at `base`, with the blocks `out` outstanding. -/
structure PoolInv (base size : ℕ) (s : Mplcb) (out : List (ℕ × ℤ)) : Prop where
  even : 2 ∣ s.areaque
  lt : s.areaque + 2 * QUEUESZ ≤ 2 ^ 32
  heap : ∃ areas, OwnedHeap s.cfg mplTags s.mem [⟨base, areas, base + QUEUESZ + size⟩] out

/-- The pool and the tasks that wait for a block. -/
structure MplInv (base size : ℕ) (s : Mplcb) (out : List (ℕ × ℤ)) : Prop
    extends PoolInv base size s out where
  waiting : ∀ t ∈ s.wait_queue, WaitsMpl (s.mpl t)

variable {base size : ℕ} {s : Mplcb} {out : List (ℕ × ℤ)} {asked blksz : ℤ} {areas : List HeapArea}
  {G : List (ℕ × List ℕ)}

theorem cfgOk (h₁ : 2 ∣ s.areaque) (h₂ : s.areaque + 2 * QUEUESZ ≤ 2 ^ 32) :
    CfgOk s.cfg mplTags := by
  have hq : QUEUESZ = 8 := rfl
  refine ⟨show 1 ≤ 3 by decide, Nat.one_pos, by decide, fun _ _ => rfl, h₁, ?_, ?_, Or.inl le_rfl⟩
  · show s.areaque < _
    omega
  · show s.areaque + QUEUESZ < _
    omega

theorem PoolInv.cfgOk (inv : PoolInv base size s out) : CfgOk s.cfg mplTags :=
  SmpTKernel.cfgOk inv.even inv.lt

theorem roundSize_eq {n : ℕ} (h0 : 0 < n) (h : n ≤ 2 ^ 31 - 8) :
    roundSize n = ((max n 16 + 7) / 8 * 8 : ℕ) := by
  have hmf : (MIN_FRAGMENT : ℤ) = 16 := rfl
  have hq : QUEUESZ - 1 = 7 := rfl
  have hmax : (if (n : ℤ) < MIN_FRAGMENT then (MIN_FRAGMENT : ℤ) else n) = (max n 16 : ℕ) := by
    split_ifs <;> omega
  simp only [roundSize, hmax]
  rw [UINT_natCast (by omega), hq, clearLow_eq (Nat.mod_lt _ (by norm_num)),
    Nat.mod_eq_of_lt (by omega)]
  exact INT_natCast (by omega)

theorem roundSize_spec (h0 : 0 < asked) (h : asked ≤ 2 ^ 31 - 8) :
    (MIN_FRAGMENT : ℤ) ≤ roundSize asked ∧ (QUEUESZ : ℤ) ∣ roundSize asked ∧
    asked ≤ roundSize asked := by
  obtain ⟨n, rfl⟩ := Int.eq_ofNat_of_zero_le h0.le
  have hmf : (MIN_FRAGMENT : ℤ) = 16 := rfl
  rw [roundSize_eq (by omega) (by omega)]
  refine ⟨by omega, ?_, by omega⟩
  exact Int.natCast_dvd_natCast.mpr (Nat.dvd_mul_left 8 _)

theorem areasOf_pool {fin : ℕ} : areasOf [⟨base, areas, fin⟩] = areas := List.append_nil areas

/-! ## Blocks -/

theorem PoolInv.of_spans (inv : PoolInv base size s out) {mem : Mem} {B : List Block}
    {out' : List (ℕ × ℤ)} (o : OwnedHeap s.cfg mplTags mem B out')
    (h : spans B = [(base, base + QUEUESZ + size)]) :
    PoolInv base size { s with mem := mem } out' := by
  obtain ⟨b, rfl, hb⟩ := List.map_eq_singleton_iff.mp h
  obtain ⟨rfl, hfin⟩ := Prod.mk.inj hb
  exact ⟨inv.even, inv.lt, b.areas, by rw [← hfin]; exact o⟩

/-- **Allocation.** -/
theorem PoolInv.getBlk (inv : PoolInv base size s out) (h16 : (MIN_FRAGMENT : ℤ) ≤ blksz)
    (hdvd : (QUEUESZ : ℤ) ∣ blksz) (hask : asked ≤ blksz) :
    (getBlk s blksz = (none, s) ∧
      ∀ areas G, Heap s.cfg mplTags s.mem [⟨base, areas, base + QUEUESZ + size⟩] G →
        ∀ a ∈ areas, a.st = .free → (a.size : ℤ) < blksz) ∨
      ∃ blk mem, getBlk s blksz = (some blk, { s with mem := mem }) ∧
        PoolInv base size { s with mem := mem } ((blk, asked) :: out) := by
  obtain ⟨areas, o⟩ := inv.heap
  have ok := inv.cfgOk
  unfold SmpTKernel.getBlk
  by_cases hs : searchFreeArea s.cfg s.mem blksz = s.cfg.freeque
  · refine Or.inl ⟨if_pos hs, fun areas' G' h' a ha hf => ?_⟩
    rcases h'.search ok blksz with ⟨-, hall⟩ | ⟨hne, -⟩
    · exact hall a (by rwa [areasOf_pool]) hf
    · exact absurd hs hne
  · right
    obtain ⟨c, x, w, hx, hle, hspans, -⟩ := o.take ok hs
    obtain ⟨hptr, ⟨B', o', hspans'⟩, -⟩ := w.alloc ok h16 hdvd hle hask
    refine ⟨x.addr + QUEUESZ, _, ?_, inv.of_spans o' (hspans'.trans hspans)⟩
    rw [if_neg hs]
    simp only [hx, Nat.add_sub_cancel] at hptr ⊢
    rw [hptr]

/-- **Release.** The areas that were released before can still be told. -/
theorem PoolInv.relBlk_heap (inv : PoolInv base size s out) {blk : ℕ}
    (hblk : blk ∈ out.map Prod.fst)
    (o : OwnedHeap s.cfg mplTags s.mem [⟨base, areas, base + QUEUESZ + size⟩] out) :
    ∃ mem areas', relBlk s blk = (E_OK, { s with mem := mem }) ∧
      OwnedHeap s.cfg mplTags mem [⟨base, areas', base + QUEUESZ + size⟩] (out.filter fun o =>
        o.1 ≠ blk) ∧
      ∀ z, Retired 1 s.mem areas z ∨ z = blk - QUEUESZ → Retired 1 mem areas' z := by
  have ok := inv.cfgOk
  have h1 : AREA_USE < 2 ^ s.cfg.bits := show 1 < 2 ^ 1 by norm_num
  obtain ⟨c, x, w, hx, hspans, -, -, hretired⟩ := o.release ok hblk h1 (by decide) (by decide)
    (show 0 < 2 ^ s.cfg.bits from Nat.two_pow_pos _) (Or.inr ⟨rfl, rfl, by decide⟩)
  obtain ⟨⟨B', o', hspans', hretired'⟩, -⟩ := w.put ok
  obtain ⟨b, rfl, hb⟩ := List.map_eq_singleton_iff.mp (hspans'.trans hspans)
  obtain ⟨rfl, hfin⟩ := Prod.mk.inj hb
  have hfin : b.fin = b.base + QUEUESZ + size := hfin
  refine ⟨_, b.areas, ?_, by rw [← hfin]; exact o', fun z hz => ?_⟩
  · unfold SmpTKernel.relBlk
    simp only [o.chk_used ok hblk, Bool.not_true, Bool.false_eq_true, if_false]
    rw [← hx]
  · have hz := hretired' z (hretired z (by rwa [areasOf_pool]))
    rwa [show areasOf [b] = b.areas from List.append_nil _] at hz

theorem PoolInv.relBlk (inv : PoolInv base size s out) {blk : ℕ} (hblk : blk ∈ out.map Prod.fst) :
    ∃ mem, relBlk s blk = (E_OK, { s with mem := mem }) ∧
      PoolInv base size { s with mem := mem } (out.filter fun o => o.1 ≠ blk) := by
  obtain ⟨areas, o⟩ := inv.heap
  obtain ⟨mem, areas', e, o', -⟩ := inv.relBlk_heap hblk o
  exact ⟨mem, e, inv.even, inv.lt, areas', o'⟩

/-! ## Waiting tasks -/

theorem PoolInv.exists_maxFree (inv : PoolInv base size s out) (hpos : 0 < blksz)
    (hle : blksz ≤ maxFreeSize s) :
    ∃ areas G, Heap s.cfg mplTags s.mem [⟨base, areas, base + QUEUESZ + size⟩] G ∧
      ∃ a ∈ areas, a.st = .free ∧ blksz ≤ a.size := by
  obtain ⟨areas, ⟨G, h⟩, -, -⟩ := inv.heap
  have ok := inv.cfgOk
  have hempty := h.buckets.rings.head.next_eq_self_iff
  have hprev := h.buckets.rings.head.prev_head
  refine ⟨areas, G, h, ?_⟩
  unfold maxFreeSize at hle
  rcases List.eq_nil_or_concat' G with rfl | ⟨G', g, rfl⟩
  · rw [if_pos (decide_eq_true (hempty.mpr rfl))] at hle
    omega
  · have hne : (G' ++ [g]).map Prod.fst ≠ [] := by simp
    rw [if_neg (by simpa using fun c => hne (hempty.mp c)), hprev, List.map_append,
      List.map_singleton, List.getLastD_concat] at hle
    obtain ⟨a, ha, hf, e⟩ := h.mem_members.mp
      (mem_nodes.mpr ⟨g, List.mem_append_right G' (List.mem_singleton.mpr rfl), List.mem_cons_self⟩)
    rw [e, h.freeSize_eq ok ha] at hle
    exact ⟨a, by rwa [areasOf_pool] at ha, hf, hle⟩

/-- The effect of an event on the outstanding blocks. -/
def MplEvent.track (out : List (ℕ × ℤ)) : MplEvent → List (ℕ × ℤ)
  | got _ asked blk => (blk, asked) :: out
  | released blk => out.filter fun o => o.1 ≠ blk
  | getFails .. | relFails .. => out

/-- The outstanding blocks after a history. -/
def outstanding (h : List MplEvent) : List (ℕ × ℤ) := h.foldl MplEvent.track []

theorem outstanding_append (h ev : List MplEvent) :
    outstanding (h ++ ev) = ev.foldl MplEvent.track (outstanding h) :=
  List.foldl_append

theorem PoolInv.congr {s' : Mplcb} (inv : PoolInv base size s out) (ha : s'.areaque = s.areaque)
    (hsz : s'.mplsz = s.mplsz) (hm : s'.mem = s.mem) : PoolInv base size s' out := by
  have hc : s'.cfg = s.cfg := by
    unfold Mplcb.cfg
    rw [ha, hsz]
  obtain ⟨even, lt, heap⟩ := inv
  exact ⟨ha ▸ even, ha ▸ lt, by rw [hc, hm]; exact heap⟩

theorem PoolInv.wakeupLoop {queue : List Tsk} : ∀ {s : Mplcb} {out : List (ℕ × ℤ)},
    PoolInv base size s out → (∀ t ∈ queue, WaitsMpl (s.mpl t)) →
    MplInv base size (mplWakeupLoop s queue).1 ((mplWakeupLoop s queue).2.foldl MplEvent.track
      out) := by
  induction queue with
  | nil =>
    intro s out inv _
    exact ⟨inv.congr rfl rfl rfl, fun t ht => absurd ht List.not_mem_nil⟩
  | cons top queue ih =>
    intro s out inv hw
    rw [mplWakeupLoop]
    by_cases hmax : (s.mpl top).blksz > maxFreeSize s
    · rw [if_pos hmax]
      exact ⟨inv.congr rfl rfl rfl, hw⟩
    · -- there is an area for the first task
      rw [if_neg hmax]
      have htop := hw top List.mem_cons_self
      obtain ⟨h16, hdvd, hask⟩ := roundSize_spec htop.pos htop.le
      rw [← htop.blksz] at h16 hdvd hask
      have hpos : 0 < (s.mpl top).blksz := lt_of_lt_of_le (by decide : (0 : ℤ) < MIN_FRAGMENT) h16
      obtain ⟨areas, G, h, a, ha, hf, hle⟩ := inv.exists_maxFree hpos (not_lt.mp hmax)
      rcases inv.getBlk h16 hdvd hask with ⟨-, hall⟩ | ⟨blk, mem, e, inv'⟩
      · exact absurd (hall areas G h a ha hf) (not_lt.mpr hle)
      · rw [e]
        exact ih inv' fun t ht => hw t (List.mem_cons_of_mem _ ht)

theorem MplInv.wakeup (inv : MplInv base size s out) :
    MplInv base size (mplWakeup s).1 ((mplWakeup s).2.foldl MplEvent.track out) :=
  inv.toPoolInv.wakeupLoop inv.waiting

theorem MplInv.subset (inv : MplInv base size s out) {q : List Tsk} (hq : q ⊆ s.wait_queue) :
    MplInv base size { s with wait_queue := q } out :=
  ⟨inv.toPoolInv.congr rfl rfl rfl, fun t ht => inv.waiting t (hq ht)⟩

/-! ## System calls -/

theorem MplInv.get (inv : MplInv base size s out) (ddsp : Bool) (prot : ER) {self : Tsk} (tmout : ℤ)
    (hself : self ∉ s.wait_queue) (hask : asked ≤ 2 ^ 31 - 8) :
    MplInv base size (tkGetMpl s ddsp prot self asked tmout).1
      ((tkGetMpl s ddsp prot self asked tmout).2.foldl MplEvent.track out) := by
  unfold tkGetMpl
  by_cases hpos : ¬asked > 0
  · rw [if_pos hpos]; exact inv
  rw [if_neg hpos]
  by_cases htm : ¬tmout ≥ TMO_FEVR
  · rw [if_pos htm]; exact inv
  rw [if_neg htm]
  by_cases hd : ddsp = true
  · rw [if_pos hd]; exact inv
  rw [if_neg hd]
  by_cases hprot : prot ≠ E_OK
  · simp only [if_pos hprot]; exact inv
  simp only [if_neg hprot]
  by_cases hmax : roundSize asked > s.mplsz
  · rw [if_pos hmax]; exact inv
  rw [if_neg hmax]
  by_cases hdis : isDiswai s.mplatr (s.waitmask self) TTW_MPL = true
  · rw [if_pos hdis]; exact inv
  rw [if_neg hdis]
  have hpos : 0 < asked := not_not.mp hpos
  obtain ⟨h16, hdvd, hle⟩ := roundSize_spec hpos hask
  -- the call waits
  have hwait : ∀ q : List Tsk, q ⊆ self :: s.wait_queue → MplInv base size
      { s with mpl := Function.update s.mpl self ⟨roundSize asked, asked⟩, wait_queue := q }
      out := by
    refine fun q hq => ⟨inv.toPoolInv.congr rfl rfl rfl, fun t ht => ?_⟩
    show WaitsMpl (Function.update s.mpl self ⟨roundSize asked, asked⟩ t)
    rcases List.mem_cons.mp (hq ht) with rfl | ht
    · rw [Function.update_self]
      exact ⟨rfl, hpos, hask⟩
    · rw [Function.update_of_ne (ne_of_mem_of_not_mem ht hself)]
      exact inv.waiting t ht
  have hblock : MplInv base size
      (if isDiswai s.mplatr (s.waitmask self) TTW_MPL then
        ({ s with mpl := Function.update s.mpl self ⟨roundSize asked, asked⟩ },
          [MplEvent.getFails self E_DISWAI])
      else if tmout = TMO_POL then
        ({ s with mpl := Function.update s.mpl self ⟨roundSize asked, asked⟩ },
          [.getFails self E_TMOUT])
      else ({ s with
        mpl := Function.update s.mpl self ⟨roundSize asked, asked⟩
        wait_queue := gcbInsert s.mplatr s.priority self s.wait_queue }, [])).1 out := by
    rw [if_neg hdis]
    split_ifs
    · exact hwait s.wait_queue (List.subset_cons_self self _)
    · exact hwait _ (gcbInsert_perm _ _ _ _).subset
  by_cases htop : gcbTopOfWaitQueue s.mplatr s.priority self s.wait_queue = self
  · rw [if_pos htop]
    rcases inv.toPoolInv.getBlk h16 hdvd hle with ⟨e, -⟩ | ⟨blk, mem, e, inv'⟩
    · rw [e]
      simp only [if_neg hdis] at hblock ⊢
      split_ifs at hblock ⊢ <;> exact hblock
    · rw [e]
      exact ⟨inv', inv.waiting⟩
  · rw [if_neg htop]
    simp only [if_neg hdis] at hblock ⊢
    split_ifs at hblock ⊢ <;> exact hblock

theorem MplInv.rel (inv : MplInv base size s out) (ddsp : Bool) (prot : ER) {blk : ℕ}
    (hblk : blk ∈ out.map Prod.fst) :
    MplInv base size (tkRelMpl s ddsp prot blk).1
      ((tkRelMpl s ddsp prot blk).2.foldl MplEvent.track out) := by
  unfold tkRelMpl
  by_cases hd : ddsp = true
  · rw [if_pos hd]; exact inv
  rw [if_neg hd]
  by_cases hprot : prot ≠ E_OK
  · rw [if_pos hprot]; exact inv
  rw [if_neg hprot]
  by_cases hrange : blk < (s.mem s.areaque).next ∨ blk > (s.mem s.areaque).prev
  · rw [if_pos hrange]; exact inv
  rw [if_neg hrange]
  obtain ⟨mem, e, inv'⟩ := inv.toPoolInv.relBlk hblk
  rw [e]
  exact MplInv.wakeup ⟨inv', inv.waiting⟩

/-- An outstanding block passes the range check of `tk_rel_mpl`. -/
theorem PoolInv.range (inv : PoolInv base size s out) {blk : ℕ} (hblk : blk ∈ out.map Prod.fst) :
    ¬(blk < (s.mem s.areaque).next ∨ blk > (s.mem s.areaque).prev) := by
  obtain ⟨areas, ⟨G, h⟩, -, ho⟩ := inv.heap
  obtain ⟨o, ho', rfl⟩ := List.mem_map.mp hblk
  obtain ⟨a, ha, -, hao, -⟩ := ho.large o ho'
  rw [areasOf_pool] at ha
  have ht : Tiles QUEUESZ base areas (base + QUEUESZ + size) :=
    h.tiles _ (List.mem_singleton.mpr rfl)
  have hb := ht.bounds ha
  have hring := h.ring
  rw [cellsOf, List.flatMap_singleton] at hring
  -- `areaque` leads to the first area and to the end marker
  have hprev := hring.prev_head
  rw [Block.cells, List.getLastD_concat] at hprev
  have hnext : (s.mem s.areaque).next = base := by
    have hn : (s.mem s.areaque).next = _ := hring.next_head
    rcases areas with _ | ⟨b, l⟩
    · exact absurd ha List.not_mem_nil
    · exact hn.trans ht.1
  have hp := prev_eq 1 s.mem s.areaque
  have hprev : (untag 1 s.mem s.areaque).prev = base + QUEUESZ + size := hprev
  omega

theorem MplInv.chgPri (inv : MplInv base size s out) (t : Tsk) (priority : ℕ) :
    MplInv base size (chgWaiterPri s t priority).1
      ((chgWaiterPri s t priority).2.foldl MplEvent.track out) := by
  have inv' : MplInv base size { s with priority := Function.update s.priority t priority } out :=
    ⟨inv.toPoolInv.congr rfl rfl rfl, inv.waiting⟩
  unfold chgWaiterPri
  by_cases hook : t ∈ s.wait_queue ∧ s.mplatr &&& TA_TPRI ≠ 0
  · simp only [if_pos hook]
    unfold mplChgPri
    rw [if_pos (Int.natCast_nonneg _)]
    exact (inv'.subset (gcbChangePriority_perm _ hook.1).subset).wakeup
  · simp only [if_neg hook]
    exact inv'

/-- The cells and the memory of a new pool. -/
structure PoolMem (areaque mempool size : ℕ) : Prop where
  even : 2 ∣ areaque
  lt : areaque + 2 * QUEUESZ ≤ 2 ^ 32
  aligned : QUEUESZ ∣ mempool
  fits : mempool + 2 * QUEUESZ + size ≤ 2 ^ 32
  apart : areaque + 2 * QUEUESZ ≤ mempool ∨ mempool + 2 * QUEUESZ + size ≤ areaque

/-- The area and the end marker are linked in and flagged. -/
theorem poolLinked {cfg : AreaCfg} {m : Mem} {q e : ℕ} (hbits : cfg.bits = 1)
    (ring : IsRing (untag cfg.bits m) cfg.areaque []) (htag : tagAt cfg.bits m cfg.areaque = 0)
    (heven : 2 ∣ cfg.areaque) (hq : 2 ∣ q) (he : 2 ∣ e) (hne : q ≠ e)
    (hqa : q ≠ cfg.areaque) (hea : e ≠ cfg.areaque) :
    BlockLinked cfg mplTags m
      (setAreaFlag (setAreaFlag
        (insertAreaQue cfg (insertAreaQue cfg m cfg.areaque e) cfg.areaque q)
        cfg.areaque AREA_USE) e AREA_USE) [] q e := by
  have h2 : (2 : ℕ) ^ cfg.bits = 2 := by rw [hbits]; rfl
  have h1 : AREA_USE < 2 ^ cfg.bits := by rw [h2]; decide
  have linked := blockLinked_insert ring (by rw [h2]; exact heven) (by rw [h2]; exact hq)
    (by rw [h2]; exact he) (fun hc => hqa (List.mem_singleton.mp hc))
    (fun hc => hea (List.mem_singleton.mp hc)) hne
  have linked₁ := linked.flag (Or.inl rfl) (linked.headTag.trans htag) h1
  have linked₂ := linked₁.flag (x := e) (Or.inr (Or.inr rfl))
    (linked₁.finTag.trans (if_neg hea.symm)) h1
  simp only [if_neg hea, if_neg hne.symm, if_neg hqa.symm, ite_true] at linked₂
  exact linked₂

/-- **Creation.** The pool is one free area. -/
theorem initMempool_inv {mempool : ℕ} (hm : PoolMem s.areaque mempool size)
    (hsize : MIN_FRAGMENT ≤ size ∧ QUEUESZ ∣ size) :
    PoolInv mempool size (initMempool s mempool ((size : ℤ) + (QUEUESZ : ℤ) * 2)) [] := by
  have hq : QUEUESZ = 8 := rfl
  obtain ⟨heven, hlt, hal, hfits, hapart⟩ := hm
  have h8 : 8 ∣ size := hsize.2
  have hal8 : 8 ∣ mempool := hal
  set cfg := s.cfg
  have hareaque : cfg.areaque = s.areaque := rfl
  have hfreeque : cfg.freeque = s.areaque + QUEUESZ := rfl
  have ok := cfgOk heven hlt
  have ok₀ : CfgOk cfg ⟨0, 0, AREA_USE⟩ :=
    ⟨ok.bits, ok.bits_pos, by decide, ok.toSize, ok.areaque_dvd, ok.areaque_lt,
      ok.freeque_lt, ok.heads⟩
  have heap₀ := heap_init ok₀ rfl s.mem
  set m₀ := queInit cfg.freeque (queInit cfg.areaque s.mem)
  set e := mempool + QUEUESZ + size with he
  have hlinked := poolLinked rfl heap₀.ring heap₀.headTag heven (q := mempool) (e := e) (by omega)
    (by omega) (by omega) (by rw [hareaque]; omega) (by rw [hareaque]; omega)
  set m₄ := setAreaFlag (setAreaFlag
    (insertAreaQue cfg (insertAreaQue cfg m₀ cfg.areaque e) cfg.areaque mempool) cfg.areaque
    AREA_USE) e AREA_USE
  have owned₀ : OwnedHeap cfg ⟨0, 0, AREA_USE⟩ m₀ [] [] :=
    ⟨⟨[], heap₀⟩, nofun, List.Perm.refl _, nofun⟩
  have w := owned₀.addBlock ok₀ (rfl : mplTags.top = 0) (rfl : mplTags.fin = AREA_USE) hsize hal
    (by omega) nofun
    (show cfg.areaque + QUEUESZ ≤ mempool ∨ mempool + QUEUESZ + size + QUEUESZ ≤ cfg.areaque by
      rw [hareaque]; omega)
    (show cfg.freeque + QUEUESZ ≤ mempool ∨ mempool + QUEUESZ + size + QUEUESZ ≤ cfg.freeque by
      rw [hfreeque]; omega) hlinked
  obtain ⟨⟨B, o, hspans, -⟩, -⟩ := w.put ok
  have hep : mempool + ((size : ℤ) + (QUEUESZ : ℤ) * 2).toNat - QUEUESZ = e := by omega
  have hinit : initMempool s mempool ((size : ℤ) + (QUEUESZ : ℤ) * 2) =
      { s with mem := appendFreeArea cfg m₄ mempool } := by
    unfold initMempool
    rw [hep]
  rw [hinit]
  obtain ⟨b, rfl, hb⟩ := List.map_eq_singleton_iff.mp hspans
  obtain ⟨rfl, hfin⟩ := Prod.mk.inj hb
  have hfin : b.fin = b.base + QUEUESZ + size := hfin
  exact ⟨heven, hlt, b.areas, by rw [← hfin]; exact o⟩

theorem PoolInv.write (inv : PoolInv base size s out) {mem : Mem}
    (hm : ∀ z, (∀ o ∈ out, z < o.1 ∨ (o.1 : ℤ) + o.2 ≤ z) → mem z = s.mem z) :
    PoolInv base size { s with mem := mem } out := by
  obtain ⟨areas, o⟩ := inv.heap
  exact ⟨inv.even, inv.lt, areas, o.write fun z _ hz => hm z hz⟩

theorem tkCreMpl_inv {mplatr mempool : ℕ} {mplsz : ℤ} (h0 : 0 < mplsz) (hle : mplsz ≤ 2 ^ 31 - 8)
    (hm : PoolMem s.areaque mempool (roundSize mplsz).toNat) :
    MplInv mempool (roundSize mplsz).toNat (tkCreMpl s mplatr mplsz mempool) [] := by
  obtain ⟨h16, hdvd, -⟩ := roundSize_spec h0 hle
  have hmf : (MIN_FRAGMENT : ℤ) = 16 := rfl
  obtain ⟨n, hn⟩ := Int.eq_ofNat_of_zero_le (by omega : 0 ≤ roundSize mplsz)
  unfold tkCreMpl
  rw [hn] at h16 hdvd hm ⊢
  rw [Int.toNat_natCast] at hm ⊢
  exact ⟨initMempool_inv hm ⟨by omega, Int.natCast_dvd_natCast.mp hdvd⟩, fun t ht =>
    absurd ht List.not_mem_nil⟩

/-! ## Runs -/

/-- What can happen to a pool, its blocks and the tasks it works with. -/
inductive MplOp
  | get (ddsp : Bool) (prot : ER) (self : Tsk) (asked tmout : ℤ)
  | rel (ddsp : Bool) (prot : ER) (blk : ℕ)
  | releaseWaiter (t : Tsk) (ercd : ER)
  | terminateWaiter (t : Tsk)
  | chgPri (t : Tsk) (priority : ℕ)
  | setWaitmask (t : Tsk) (waitmask : ℕ)
  /-- The owners of blocks use them. -/
  | write (mem : Mem)

/-- The state after an operation, and what happened. -/
def MplOp.run (s : Mplcb) : MplOp → Mplcb × List MplEvent
  | get ddsp prot self asked tmout => tkGetMpl s ddsp prot self asked tmout
  | rel ddsp prot blk => tkRelMpl s ddsp prot blk
  | releaseWaiter t ercd => SmpTKernel.releaseWaiter s t ercd
  | terminateWaiter t => SmpTKernel.terminateWaiter s t
  | chgPri t priority => chgWaiterPri s t priority
  | setWaitmask t waitmask => ({ s with waitmask := Function.update s.waitmask t waitmask }, [])
  | write mem => ({ s with mem := mem }, [])

/-- A running task is not in the wait queue, sizes can be rounded, only outstanding blocks are
released and written to. -/
def MplOp.Legal (s : Mplcb) (out : List (ℕ × ℤ)) : MplOp → Prop
  | get _ _ self asked _ => self ∉ s.wait_queue ∧ asked ≤ 2 ^ 31 - 8
  | rel _ _ blk => blk ∈ out.map Prod.fst
  | write mem => ∀ z, (∀ o ∈ out, z < o.1 ∨ (o.1 : ℤ) + o.2 ≤ z) → mem z = s.mem z
  | _ => True

/-- Runs of a pool, with their history. -/
inductive MplRun (s₀ : Mplcb) : Mplcb → List MplEvent → Prop
  | create : MplRun s₀ s₀ []
  | step {s : Mplcb} {h : List MplEvent} (op : MplOp) : MplRun s₀ s h → op.Legal s (outstanding h) →
      MplRun s₀ (op.run s).1 (h ++ (op.run s).2)

theorem MplInv.run (inv : MplInv base size s out) {op : MplOp} (hop : op.Legal s out) :
    MplInv base size (op.run s).1 ((op.run s).2.foldl MplEvent.track out) := by
  cases op with
  | get ddsp prot self asked tmout => exact inv.get ddsp prot tmout hop.1 hop.2
  | rel ddsp prot blk => exact inv.rel ddsp prot hop
  | releaseWaiter t ercd => exact (inv.subset (List.erase_subset (a := t))).wakeup
  | terminateWaiter t => exact (inv.subset (List.erase_subset (a := t))).wakeup
  | chgPri t priority => exact inv.chgPri t priority
  | setWaitmask t waitmask => exact ⟨inv.toPoolInv.congr rfl rfl rfl, inv.waiting⟩
  | write mem => exact ⟨inv.toPoolInv.write hop, inv.waiting⟩

theorem MplRun.inv {s₀ : Mplcb} {h : List MplEvent} (inv : MplInv base size s₀ [])
    (run : MplRun s₀ s h) :
    MplInv base size s (outstanding h) := by
  induction run with
  | create => exact inv
  | step op _ hop ih =>
    rw [outstanding_append]
    exact ih.run hop

/-! ## What holds in every run -/

/-- With nothing outstanding there is one free area. -/
theorem HandedOut.eq_nil (h : HandedOut areas []) (hq : Quiet areas)
    (ht : Tiles QUEUESZ base areas (base + QUEUESZ + size)) : areas = [⟨base, size, .free⟩] := by
  have hused : areas.filter (fun a => a.st = .used) = [] := by
    have := h.perm.symm.eq_nil
    exact List.map_eq_nil_iff.mp this
  have hfree : ∀ a ∈ areas, a.st = .free := by
    intro a ha
    have hnot := hq.settled a ha
    have hnot' := List.filter_eq_nil_iff.mp hused a ha
    rcases hst : a.st with _ | _ | _
    · rfl
    · exact absurd hst hnot
    · exact absurd hst (by simpa using hnot')
  have h8 : QUEUESZ = 8 := rfl
  rcases areas with _ | ⟨a, _ | ⟨b, l⟩⟩
  · have hfin : base = base + QUEUESZ + size := ht
    omega
  · obtain ⟨ha, hfin⟩ := ht
    have hsz : a.size = size := Nat.add_left_cancel hfin
    have hst := hfree a List.mem_cons_self
    rcases a with ⟨addr, sz, st⟩
    simp only [List.cons.injEq, Area.mk.injEq, and_true]
    exact ⟨ha, hsz, hst⟩
  · have hab := (List.isChain_cons_cons.mp hq.chain).1
    exact absurd ⟨hfree a List.mem_cons_self, hfree b (List.mem_cons_of_mem _ List.mem_cons_self)⟩
      hab

theorem Heap.state_eq {fin : ℕ} (h : Heap s.cfg mplTags s.mem [⟨base, areas, fin⟩] G) {a : HeapArea}
    (ha : a ∈ areas) (hq : Quiet areas) :
    a.st = if chkAreaFlag s.mem a.addr AREA_USE then .used else .free := by
  have h1 : AREA_USE < 2 ^ s.cfg.bits := show 1 < 2 ^ 1 by norm_num
  have htag := h.tag _ (List.mem_singleton.mpr rfl) a ha
  rw [chkAreaFlag_eq h1, htag]
  rcases hst : a.st with _ | _ | _
  · simp [areaTag, hst, mplTags]
  · exact absurd hst (hq.settled a ha)
  · simp [areaTag, hst, mplTags]

/-- **The heap of a pool.** After any run the areas in `areaque` fill the pool up to the end marker,
their flags tell the areas in use from the free ones, and no two neighbours are free. The blocks
handed out are the areas in use, each aligned, inside the pool, at least as large as asked for and
apart from the others. `freeque` links one free area of each size in ascending order, each with the
others of its size, and these are the free areas. Every outstanding block can be released; with
nothing outstanding the pool is one free area. -/
theorem mplRun_heap {s₀ : Mplcb} {mplatr mempool : ℕ} {mplsz : ℤ} {h : List MplEvent}
    (h0 : 0 < mplsz) (hle : mplsz ≤ 2 ^ 31 - 8)
    (hm : PoolMem s₀.areaque mempool (roundSize mplsz).toNat)
    (run : MplRun (tkCreMpl s₀ mplatr mplsz mempool) s h) :
    let fin := mempool + QUEUESZ + (roundSize mplsz).toNat
    ∃ (areas : List HeapArea) (G : List (ℕ × List ℕ)),
      (IsRing (untag 1 s.mem) s.areaque (areas.map Area.addr ++ [fin]) ∧
        Tiles QUEUESZ mempool areas fin ∧
        ∀ a ∈ areas, a.st = if chkAreaFlag s.mem a.addr AREA_USE then .used else .free) ∧
      areas.IsChain (fun a b => ¬(a.st = .free ∧ b.st = .free)) ∧
      (((outstanding h).map Prod.fst).Perm
          ((areas.filter fun a => a.st = .used).map fun a => a.addr + QUEUESZ) ∧
        (∀ o ∈ outstanding h, QUEUESZ ∣ o.1 ∧
          ∃ a ∈ areas, a.st = .used ∧ a.addr + QUEUESZ = o.1 ∧ o.2 ≤ a.size) ∧
        (∀ o ∈ outstanding h, mempool + QUEUESZ ≤ o.1 ∧ (o.1 : ℤ) + o.2 ≤ fin) ∧
        (outstanding h).Pairwise fun o p => (o.1 : ℤ) + o.2 ≤ p.1 ∨ (p.1 : ℤ) + p.2 ≤ o.1) ∧
      (RingSet s.mem (queueRings (· + QUEUESZ) (s.areaque + QUEUESZ) G) ∧
        (G.map fun g => sizeAt s.mem g.1).Pairwise (· < ·) ∧
        (∀ g ∈ G, ∀ x ∈ g.2, sizeAt s.mem x = sizeAt s.mem g.1) ∧ (members G).Nodup ∧
        (members G).Perm ((areas.filter fun a => a.st = .free).map fun a => a.addr + QUEUESZ) ∧
        ∀ a ∈ areas, sizeAt s.mem (a.addr + QUEUESZ) = a.size) ∧
      (∀ o ∈ outstanding h, .released o.1 ∈ (tkRelMpl s false E_OK o.1).2) ∧
      (outstanding h = [] → areas = [⟨mempool, (roundSize mplsz).toNat, .free⟩]) := by
  intro fin
  have inv := run.inv (tkCreMpl_inv h0 hle hm)
  obtain ⟨areas, ⟨G, heap⟩, hquiet, ho⟩ := inv.heap
  have hapart := ho.apart heap
  rw [areasOf_pool] at ho
  have hq : Quiet areas := hquiet _ (List.mem_singleton.mpr rfl)
  have ht : Tiles QUEUESZ mempool areas fin := heap.tiles _ (List.mem_singleton.mpr rfl)
  have hmem {a : HeapArea} (ha : a ∈ areas) : a ∈ areasOf [⟨mempool, areas, fin⟩] := by
    rwa [areasOf_pool]
  refine ⟨areas, G, ⟨?_, ht, fun a ha => ?_⟩, hq.chain, ⟨ho.perm, fun o hmo => ?_,
    fun o hmo => ?_, hapart⟩, ⟨heap.buckets.rings, heap.buckets.sorted, heap.buckets.same,
    heap.buckets.nodup, ?_, ?_⟩, fun o hmo => ?_, fun he => ?_⟩
  · have hring := heap.ring
    rwa [cellsOf, List.flatMap_singleton] at hring
  · exact heap.state_eq ha hq
  · obtain ⟨a, ha, hu, hao, hsz⟩ := ho.large o hmo
    refine ⟨?_, a, ha, hu, hao, hsz⟩
    rw [← hao]
    exact Nat.dvd_add (heap.addr_dvd (hmem ha)) (dvd_refl _)
  · obtain ⟨a, ha, -, hao, hsz⟩ := ho.large o hmo
    have := ht.bounds ha
    omega
  · have hfree := heap.free
    rwa [freeCells, areasOf_pool] at hfree
  · exact fun a ha => heap.sizeAt_eq (hmem ha)
  · have hblk : o.1 ∈ (outstanding h).map Prod.fst := List.mem_map.mpr ⟨o, hmo, rfl⟩
    obtain ⟨mem, e, -⟩ := inv.toPoolInv.relBlk hblk
    have hrange := inv.toPoolInv.range hblk
    simp [tkRelMpl, hrange, e, E_OK]
  · rw [he] at ho
    exact ho.eq_nil hq ht

/-- A pool of 32 bytes. -/
def smallMpl : Mplcb :=
  tkCreMpl ⟨[], 0, 0, 1000, fun _ => ⟨0, 0⟩, fun _ => 1, fun _ => 0, fun _ => ⟨0, 0⟩⟩ 0 30 2000

/-- The first task gets the whole pool, for the second nothing is left. -/
theorem mplRun_heap_full :
    let r₁ := (MplOp.get false E_OK 1 20 TMO_FEVR).run smallMpl
    let r₂ := (MplOp.get false E_OK 2 9 TMO_FEVR).run r₁.1
    r₂.1.wait_queue = [2] ∧ ∃ a : HeapArea, a.st = .used ∧ a.addr + QUEUESZ = 2008 ∧
      20 ≤ (a.size : ℤ) ∧
      sizeAt r₂.1.mem 2008 = a.size := by
  intro r₁ r₂
  have run₁ :=
    MplRun.create.step (.get false E_OK 1 20 TMO_FEVR) (s := smallMpl) ⟨by decide +kernel, by
      decide⟩
  have run₂ := run₁.step (.get false E_OK 2 9 TMO_FEVR) ⟨by decide +kernel, by decide⟩
  have hm : PoolMem 1000 2000 (roundSize 30).toNat := by
    constructor <;> decide
  obtain ⟨areas, G, -, -, ⟨-, hblocks, -⟩, ⟨-, -, -, -, -, hsize⟩, -⟩ :=
    mplRun_heap (by decide) (by decide) hm run₂
  obtain ⟨-, a, ha, hu, hao, hle⟩ := hblocks (2008, 20) (by decide +kernel)
  refine ⟨by decide +kernel, a, hu, hao, hle, ?_⟩
  rw [← hsize a ha, hao]

end SmpTKernel
