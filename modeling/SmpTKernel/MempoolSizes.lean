import SmpTKernel.MempoolInv

/-!
# Requests of any size

`_tk_get_mpl` rounds a size up in 32 bits and only then compares it with the size of the pool. Up to
`INT_MAX - 7` the rounding is exact; the seven larger sizes become negative, pass the comparison and
are cut off an area behind its end.
-/

namespace SmpTKernel

open LinkRing Words Tiling

/-- What a call of `tk_get_mpl` by `t` is to do in a pool of `size` bytes at `base`. -/
structure GetsRight (base size : ℕ) (s : Mplcb) (ddsp : Bool) (prot : ER) (t : Tsk)
    (asked tmout : ℤ) : Prop where
  /-- A rounded size that passes the comparison is positive and as large as the size asked for. -/
  rounded : roundSize asked ≤ s.mplsz → 0 < roundSize asked ∧ asked ≤ roundSize asked
  /-- If `get_blk` divides the area it finds, it does so inside the area. -/
  divided :
    let q := searchFreeArea s.cfg s.mem (roundSize asked)
    let area := areaSize s.cfg (removeFreeQue s.mem q) (q - QUEUESZ)
    roundSize asked ≤ s.mplsz → q ≠ s.cfg.freeque →
      UINT (area - roundSize asked) ≥ MIN_FRAGMENT + QUEUESZ →
      0 < roundSize asked ∧ roundSize asked + QUEUESZ ≤ area
  /-- The call fails, waits, or returns a block that is large enough and lies in the pool. -/
  result :
    let r := tkGetMpl s ddsp prot t asked tmout
    (∃ ercd, r.2 = [.getFails t ercd]) ∨ (r.2 = [] ∧ t ∈ r.1.wait_queue) ∨
      ∃ blk, r.2 = [.got t asked blk] ∧ base + QUEUESZ ≤ blk ∧
        (blk : ℤ) + asked ≤ base + QUEUESZ + size ∧
        asked ≤ sizeAt r.1.mem blk

variable {base size : ℕ} {s : Mplcb} {out : List (ℕ × ℤ)} {asked blksz tmout : ℤ} {ddsp : Bool}
  {prot : ER} {t : Tsk}

/-- The largest sizes are rounded to a negative number. -/
theorem roundSize_of_gt (h : 2 ^ 31 - 8 < asked) (hint : asked < 2 ^ 31) :
    roundSize asked = -2 ^ 31 := by
  obtain ⟨n, rfl⟩ := Int.eq_ofNat_of_zero_le (by omega : 0 ≤ asked)
  have hmax : (if (n : ℤ) < MIN_FRAGMENT then (MIN_FRAGMENT : ℤ) else n) = n := by
    have hmf : (MIN_FRAGMENT : ℤ) = 16 := rfl
    rw [if_neg (by omega)]
  have hq : QUEUESZ - 1 = 7 := rfl
  have hround : (n + 7) % 2 ^ 32 / 2 ^ 3 * 2 ^ 3 = 2 ^ 31 := by omega
  simp only [roundSize, hmax]
  rw [UINT_natCast (by omega), hq, clearLow_eq (Nat.mod_lt _ (by norm_num)), hround]
  decide

/-- A block handed out lies in the pool, in an area that is large enough. -/
theorem PoolInv.block (inv : PoolInv base size s out) {o : ℕ × ℤ} (ho : o ∈ out) :
    base + QUEUESZ ≤ o.1 ∧ (o.1 : ℤ) + o.2 ≤ base + QUEUESZ + size ∧ o.2 ≤ sizeAt s.mem o.1 := by
  obtain ⟨areas, ⟨G, h⟩, -, hout⟩ := inv.heap
  obtain ⟨a, ha, -, hao, hle⟩ := hout.large o ho
  have ht : Tiles QUEUESZ base areas (base + QUEUESZ + size) :=
    h.tiles _ (List.mem_singleton.mpr rfl)
  have hbounds := ht.bounds (by rwa [areasOf_pool] at ha)
  rw [← hao, h.sizeAt_eq ha]
  refine ⟨by omega, ?_, hle⟩
  omega

/-- The area that is found is at least as large as the rounded size. -/
theorem PoolInv.found (inv : PoolInv base size s out)
    (hne : searchFreeArea s.cfg s.mem blksz ≠ s.cfg.freeque) :
    blksz ≤ areaSize s.cfg (removeFreeQue s.mem (searchFreeArea s.cfg s.mem blksz))
      (searchFreeArea s.cfg s.mem blksz - QUEUESZ) := by
  obtain ⟨areas, o⟩ := inv.heap
  obtain ⟨c, x, w, hx, hle, -⟩ := o.take inv.cfgOk hne
  obtain ⟨G, h⟩ := w.heap
  have hsize := h.areaSize_eq inv.cfgOk (mem_fill (List.mem_singleton.mpr rfl))
  rw [hx, Nat.add_sub_cancel, ← hx, hsize]
  exact hle

theorem getBlk_mplsz (s : Mplcb) (blksz : ℤ) : (getBlk s blksz).2.mplsz = s.mplsz := by
  unfold getBlk
  dsimp only
  split_ifs <;> rfl

/-- What a call can come to. -/
theorem tkGetMpl_result (s : Mplcb) (ddsp : Bool) (prot : ER) (t : Tsk) (asked tmout : ℤ) :
    (tkGetMpl s ddsp prot t asked tmout).1.mplsz = s.mplsz ∧
      ((∃ ercd, (tkGetMpl s ddsp prot t asked tmout).2 = [.getFails t ercd]) ∨
        ((tkGetMpl s ddsp prot t asked tmout).2 = [] ∧
          t ∈ (tkGetMpl s ddsp prot t asked tmout).1.wait_queue) ∨
        ∃ blk, (tkGetMpl s ddsp prot t asked tmout).2 = [.got t asked blk]) := by
  generalize hr : tkGetMpl s ddsp prot t asked tmout = r
  have hfails (ercd : ER) (h : (s, [MplEvent.getFails t ercd]) = r) :
      r.1.mplsz = s.mplsz ∧ ((∃ ercd, r.2 = [.getFails t ercd]) ∨
        (r.2 = [] ∧ t ∈ r.1.wait_queue) ∨ ∃ blk, r.2 = [.got t asked blk]) := by
    rw [← h]
    exact ⟨rfl, .inl ⟨_, rfl⟩⟩
  unfold tkGetMpl at hr
  split at hr
  · exact hfails _ hr
  split at hr
  · exact hfails _ hr
  split at hr
  · exact hfails _ hr
  dsimp only at hr
  split at hr
  · exact hfails _ hr
  split at hr
  · exact hfails _ hr
  split at hr
  · exact hfails _ hr
  have hsize : (if gcbTopOfWaitQueue s.mplatr s.priority t s.wait_queue = t then
      getBlk s (roundSize asked) else (none, s)).2.mplsz = s.mplsz := by
    split
    · exact getBlk_mplsz ..
    · rfl
  generalize (if gcbTopOfWaitQueue s.mplatr s.priority t s.wait_queue = t then
    getBlk s (roundSize asked) else (none, s)) = got at hr hsize
  rcases got with ⟨_ | blk, s'⟩
  · -- ready for wait
    dsimp only at hr
    split at hr
    · exact hr ▸ ⟨hsize, .inl ⟨_, rfl⟩⟩
    split at hr
    · exact hr ▸ ⟨hsize, .inl ⟨_, rfl⟩⟩
    · exact hr ▸ ⟨hsize, .inr (.inl ⟨rfl, (gcbInsert_perm ..).symm.subset List.mem_cons_self⟩)⟩
  · exact hr ▸ ⟨hsize, .inr (.inr ⟨blk, rfl⟩)⟩

/-- A size above that of the pool is refused, if no earlier check fails. -/
theorem tkGetMpl_refused (h : roundSize asked > s.mplsz) (ddsp : Bool) (prot : ER) (t : Tsk)
    (tmout : ℤ) :
    ∃ ercd, (tkGetMpl s ddsp prot t asked tmout).2 = [.getFails t ercd] := by
  unfold tkGetMpl
  split
  · exact ⟨_, rfl⟩
  split
  · exact ⟨_, rfl⟩
  split
  · exact ⟨_, rfl⟩
  dsimp only
  rw [if_pos h]
  split <;> exact ⟨_, rfl⟩

theorem MplInv.getsRight (inv : MplInv base size s out) (ht : t ∉ s.wait_queue) (hpos : 0 < asked)
    (hle : asked ≤ 2 ^ 31 - 8) : GetsRight base size s ddsp prot t asked tmout := by
  obtain ⟨h16, hdvd, hask⟩ := roundSize_spec hpos hle
  have hround : 0 < roundSize asked := lt_of_lt_of_le (by decide : (0 : ℤ) < MIN_FRAGMENT) h16
  refine ⟨fun _ => ⟨hround, hask⟩, fun _ hne hdiv => ⟨hround, ?_⟩, ?_⟩
  · -- the difference is not negative, so it is the size of the rest
    have hfound := inv.toPoolInv.found hne
    have hrest := Words.toUnsigned_le (w := 32) (sub_nonneg.mpr hfound)
    have hmf : MIN_FRAGMENT + QUEUESZ = 24 := rfl
    have hq : (QUEUESZ : ℤ) = 8 := rfl
    unfold UINT at hdiv
    omega
  · have inv' := inv.get ddsp prot tmout ht hle
    rcases (tkGetMpl_result s ddsp prot t asked tmout).2 with hfails | hwaits | ⟨blk, hgot⟩
    · exact .inl hfails
    · exact .inr (.inl hwaits)
    · rw [hgot] at inv'
      exact .inr (.inr ⟨blk, hgot, inv'.toPoolInv.block (List.mem_cons_self (a := (blk, asked)))⟩)

/-! ## The size of the pool does not change -/

theorem mplWakeupLoop_mplsz (queue : List Tsk) (s : Mplcb) :
    (mplWakeupLoop s queue).1.mplsz = s.mplsz := by
  induction queue generalizing s with
  | nil => rfl
  | cons top queue ih =>
    unfold mplWakeupLoop
    dsimp only
    split_ifs
    · rfl
    · exact (ih _).trans (getBlk_mplsz s _)

theorem relBlk_mplsz (s : Mplcb) (blk : ℕ) : (relBlk s blk).2.mplsz = s.mplsz := by
  unfold relBlk
  dsimp only
  split_ifs <;> rfl

theorem mplChgPri_mplsz (s : Mplcb) (t : Tsk) (oldpri : ℤ) :
    (mplChgPri s t oldpri).1.mplsz = s.mplsz := by
  unfold mplChgPri mplWakeup
  rw [mplWakeupLoop_mplsz]
  split_ifs <;> rfl

theorem MplOp.run_mplsz (s : Mplcb) (op : MplOp) : (op.run s).1.mplsz = s.mplsz := by
  cases op with
  | get ddsp prot t asked tmout => exact (tkGetMpl_result ..).1
  | rel ddsp prot blk =>
    unfold MplOp.run tkRelMpl mplWakeup
    dsimp only
    split_ifs
    · rfl
    · rfl
    · rfl
    · exact relBlk_mplsz s blk
    · exact (mplWakeupLoop_mplsz ..).trans (relBlk_mplsz s blk)
  | releaseWaiter t ercd => exact mplChgPri_mplsz ..
  | terminateWaiter t => exact mplChgPri_mplsz ..
  | chgPri t priority =>
    unfold MplOp.run chgWaiterPri
    dsimp only
    split_ifs
    · exact mplChgPri_mplsz ..
    · rfl
  | setWaitmask => rfl
  | write => rfl

theorem MplRun.mplsz {s₀ : Mplcb} {h : List MplEvent} (run : MplRun s₀ s h) :
    s.mplsz = s₀.mplsz := by
  induction run with
  | create => rfl
  | step op _ _ ih => exact (op.run_mplsz _).trans ih

/-- **Sizes near the limit.** In a pool reached by calls for sizes that can be rounded, a call for
any size that an `INT` can hold is right if and only if the size can be rounded. -/
theorem mplRun_sizes {s₀ : Mplcb} {mplatr mempool : ℕ} {mplsz : ℤ} {h : List MplEvent}
    (h0 : 0 < mplsz) (hlt : mplsz < 2 ^ 31)
    (hm : mplsz ≤ 2 ^ 31 - 8 → PoolMem s₀.areaque mempool (roundSize mplsz).toNat)
    (run : MplRun (tkCreMpl s₀ mplatr mplsz mempool) s h) (ht : t ∉ s.wait_queue) (hpos : 0 < asked)
    (hint : asked < 2 ^ 31) :
    GetsRight mempool (roundSize mplsz).toNat s ddsp prot t asked tmout ↔ asked ≤ 2 ^ 31 - 8 := by
  have hmplsz : s.mplsz = roundSize mplsz := run.mplsz
  constructor
  · intro right
    by_contra hgt
    have hround := roundSize_of_gt (not_le.mp hgt) hint
    have hpass : roundSize asked ≤ s.mplsz := by
      rw [hround, hmplsz]
      by_cases hle : mplsz ≤ 2 ^ 31 - 8
      · have := (roundSize_spec h0 hle).2.2
        omega
      · rw [roundSize_of_gt (not_le.mp hle) hlt]
    have := (right.rounded hpass).1
    omega
  · intro hask
    by_cases hle : mplsz ≤ 2 ^ 31 - 8
    · exact (run.inv (tkCreMpl_inv h0 hle (hm hle))).getsRight ht hpos hask
    · -- the size of the pool itself became negative: nothing passes
      have hlarge : roundSize asked > s.mplsz := by
        have := (roundSize_spec hpos hask).2.2
        rw [hmplsz, roundSize_of_gt (not_le.mp hle) hlt]
        omega
      exact ⟨fun h => absurd h (not_le.mpr hlarge), fun h => absurd h (not_le.mpr hlarge),
        .inl (tkGetMpl_refused hlarge ..)⟩

theorem mplRun_sizes_small :
    GetsRight 2000 32 smallMpl false E_OK 1 20 TMO_POL ↔ (20 : ℤ) ≤ 2 ^ 31 - 8 :=
  have hm : PoolMem 1000 2000 (roundSize 30).toNat := by constructor <;> decide
  have run : MplRun (tkCreMpl _ 0 30 2000) smallMpl [] := MplRun.create
  mplRun_sizes (by decide) (by decide) (fun _ => hm) run (by decide +kernel) (by decide) (by decide)

/-- The largest size is handed out from a pool of 32 bytes. -/
theorem mplRun_sizes_wrapped :
    (tkGetMpl smallMpl false E_OK 1 (2 ^ 31 - 1) TMO_POL).2 = [.got 1 (2 ^ 31 - 1) 2008] ∧
      ¬GetsRight 2000 32 smallMpl false E_OK 1 (2 ^ 31 - 1) TMO_POL := by
  refine ⟨by decide +kernel, fun right => ?_⟩
  exact absurd (right.rounded (by decide +kernel)).1 (by decide +kernel)

end SmpTKernel
