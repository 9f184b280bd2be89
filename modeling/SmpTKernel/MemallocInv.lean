import SmpTKernel.AreaResize
import SmpTKernel.ImallocRoom
import SmpTKernel.Memalloc

/-!
# The library heap

The calls of the library on a heap of blocks of pages, which has the invariant of the kernel heap.
Each call writes to no outstanding area but its own.
-/

namespace SmpTKernel

open LinkRing Words Tiling

variable {s s' : Macb} {out out' : List (ℕ × ℤ)} {held : List (ℕ × ℕ)} {B : List Block} {c : Place}
  {x : HeapArea} {m : Mem} {ptr q size z : ℕ} {answer : Option ℕ} {n : ℤ}

/-- The same heap for the routines of `imalloc.c`. -/
def Macb.toImacb (s : Macb) : Imacb := ⟨s.areaque, s.pagesz, s.mem, []⟩

/-! ## Sizes -/

/-- No size is rounded to 0 but 0 and those at the top of `size_t`. -/
theorem memSize_eq (h₀ : 0 < size) (h : size ≤ 2 ^ 32 - QUEUESZ) :
    memSize size = (max size MIN_FRAGMENT + 7) / 8 * 8 := by
  have hq : QUEUESZ = 8 := rfl
  have hmf : MIN_FRAGMENT = 16 := rfl
  have hmax : (if size > 0 ∧ size < MIN_FRAGMENT then MIN_FRAGMENT else size) =
      max size MIN_FRAGMENT := by
    split_ifs <;> omega
  rw [memSize, hmax, ROUND, clearLow_eq (Nat.mod_lt _ (by norm_num)), Nat.mod_eq_of_lt (by omega)]
  rfl

theorem memSize_top (h : 2 ^ 32 - QUEUESZ < size) (hlt : size < 2 ^ 32) : memSize size = 0 := by
  have hq : QUEUESZ = 8 := rfl
  have hmf : MIN_FRAGMENT = 16 := rfl
  rw [memSize, if_neg (by omega), ROUND, clearLow_eq (Nat.mod_lt _ (by norm_num))]
  omega

theorem memSize_zero : memSize 0 = 0 := rfl

theorem memSize_ne_zero (h₀ : 0 < size) (h : size ≤ 2 ^ 32 - QUEUESZ) : memSize size ≠ 0 := by
  have hmf : MIN_FRAGMENT = 16 := rfl
  rw [memSize_eq h₀ h]
  omega

theorem memSize_spec (hlt : size < 2 ^ 32) (h : memSize size ≠ 0) :
    (MIN_FRAGMENT : ℤ) ≤ memSize size ∧ QUEUESZ ∣ memSize size ∧ size ≤ memSize size ∧
      memSize size ≤ 2 ^ 32 - QUEUESZ ∧
      (size ≤ 2 ^ 32 - 2 * QUEUESZ → memSize size ≤ 2 ^ 32 - 2 * QUEUESZ) := by
  have hq : QUEUESZ = 8 := rfl
  have hmf : MIN_FRAGMENT = 16 := rfl
  have h₀ : 0 < size := Nat.pos_of_ne_zero fun e => h (by rw [e, memSize_zero])
  have hle : size ≤ 2 ^ 32 - QUEUESZ := by
    by_contra hgt
    exact h (memSize_top (by omega) hlt)
  rw [memSize_eq h₀ hle]
  exact ⟨by omega, Nat.dvd_mul_left 8 _, by omega, by omega, by omega⟩

theorem memSize_memSize (hlt : size < 2 ^ 32) : memSize (memSize size) = memSize size := by
  by_cases h : memSize size = 0
  · rw [h, memSize_zero]
  · obtain ⟨h16, hdvd, -, hle, -⟩ := memSize_spec hlt h
    have hq : QUEUESZ = 8 := rfl
    have hmf : MIN_FRAGMENT = 16 := rfl
    have h8 : 8 ∣ memSize size := hdvd
    rw [memSize_eq (by omega) hle]
    omega

/-- The number of pages is 0 or has room for the size, the first cell and the end marker. -/
theorem memPages_spec (hpos : 0 < s.pagesz) (hpage : s.pagesz ≤ 2 ^ 32)
    (h : size + 2 * QUEUESZ < 2 ^ 32) :
    memPages s size = 0 ∨ size + 2 * QUEUESZ ≤ memPages s size * s.pagesz := by
  have hq : QUEUESZ = 8 := rfl
  unfold memPages toPageCount
  rw [Nat.mod_eq_of_lt (a := size + QUEUESZ * 2) (by omega)]
  set n := size + QUEUESZ * 2 with hn
  by_cases hwrap : n + (s.pagesz - 1) < 2 ^ 32
  · right
    rw [Nat.mod_eq_of_lt hwrap]
    have hdiv := Nat.div_add_mod (n + (s.pagesz - 1)) s.pagesz
    have hmod := Nat.mod_lt (n + (s.pagesz - 1)) hpos
    rw [Nat.mul_comm] at hdiv
    omega
  · -- the sum wraps: less than a page is left
    left
    have e : (n + (s.pagesz - 1)) % 2 ^ 32 = n + (s.pagesz - 1) - 2 ^ 32 := by omega
    rw [e]
    exact Nat.div_eq_of_lt (by omega)

/-! ## Allocation -/

/-- No area is allocated: the size is rounded to 0, or there is neither a free area nor a page. -/
def NoMem (s : Macb) (size : ℕ) (q : Option ℕ) : Prop :=
  memSize size = 0 ∨ searchFreeArea s.cfg s.mem (memSize size) = s.cfg.freeque ∧
    (s.pagesz = 0 ∨ getblk (memPages s (memSize size)) q = none)

theorem memMalloc_null (h : NoMem s size answer) : memMalloc s size answer = (s, 0, []) := by
  unfold memMalloc
  dsimp only
  rcases h with h | ⟨h, h'⟩
  · rw [if_pos h.le]
  · rw [h, if_neg (not_not_intro rfl)]
    have hnone : newPage s (memSize size) answer = (s, none, []) := by
      unfold newPage
      rcases h' with h' | h'
      · rw [if_pos h']
      · split_ifs
        · rfl
        · simp only [h']
    rw [hnone]
    exact ite_self _

/-- The effect of an event on the blocks of pages. -/
def MemEvent.trackPages (held : List (ℕ × ℕ)) : MemEvent → List (ℕ × ℕ)
  | getblk q n => (q, n) :: held
  | relblk q => held.filter fun b => b.1 ≠ q
  | freed _ => held

/-- The control information stays. -/
structure SameMacb (s s' : Macb) : Prop where
  areaque : s'.areaque = s.areaque
  pagesz : s'.pagesz = s.pagesz

/-- A call leaves a heap with the areas `out'` outstanding, and has not written to the areas
`kept`. -/
structure MemStep (s s' : Macb) (kept out' : List (ℕ × ℤ)) (held : List (ℕ × ℕ)) : Prop where
  inv : ImInv s'.toImacb out' held
  same : SameMacb s s'
  frame : ∀ z, InBlock kept z → s'.mem z = s.mem z

theorem SameMacb.trans {s'' : Macb} (h : SameMacb s s') (h' : SameMacb s' s'') : SameMacb s s'' :=
  ⟨h'.areaque.trans h.areaque, h'.pagesz.trans h.pagesz⟩

theorem MemStep.after {s₁ : Macb} (h : MemStep s₁ s' out out' held) (same : SameMacb s s₁)
    (frame : ∀ z, InBlock out z → s₁.mem z = s.mem z) : MemStep s s' out out' held :=
  ⟨h.inv, same.trans h.same, fun z hz => (h.frame z hz).trans (frame z hz)⟩

theorem ImBase.allocate_step {aq : ℕ} (inv : ImBase s.toImacb held)
    (w : WorkingHeap s.cfg imTags s.mem c x out)
    (hspans : spans (c.fill [x]) = held.map (pageSpan s.pagesz)) (h16 : (MIN_FRAGMENT : ℤ) ≤ n)
    (hdvd : (QUEUESZ : ℤ) ∣ n) (hle : n ≤ x.size) (haq : aq = x.addr) :
    MemStep s (allocate s aq n).1 out (((allocate s aq n).2, n) :: out) held ∧
      (allocate s aq n).2 ≠ 0 := by
  subst haq
  obtain ⟨hptr, ⟨B, o, hB⟩, hframe⟩ := w.alloc inv.cfgOk h16 hdvd hle le_rfl
  have hret : (allocate s x.addr n).2 = x.addr + QUEUESZ := hptr
  rw [hret]
  exact ⟨⟨⟨⟨inv.dvd, inv.lt, inv.page, inv.page_pos, nofun, inv.full⟩, B, o, hB.trans hspans⟩,
    ⟨rfl, rfl⟩, hframe⟩, Nat.succ_ne_zero _⟩

/-- **`_mem_malloc`** finds an area exactly if it can. -/
theorem ImInv.malloc_step (inv : ImInv s.toImacb out held) (hpage : s.pagesz ≤ 2 ^ 32)
    (hlt : size < 2 ^ 32) (hq : ∀ a ∈ answer, Fresh s.toImacb held a (memPages s (memSize size)))
    (hmem : ¬NoMem s size answer) (hsize : size ≤ 2 ^ 32 - 2 * QUEUESZ) :
    let r := memMalloc s size answer
    MemStep s r.1 out ((r.2.1, (memSize size : ℤ)) :: out) (r.2.2.foldl MemEvent.trackPages held) ∧
    r.2.1 ≠ 0 := by
  have hne : memSize size ≠ 0 := fun e => hmem (Or.inl e)
  obtain ⟨h16, hdvd, -, -, hle⟩ := memSize_spec hlt hne
  have hle := hle hsize
  have hmf : (MIN_FRAGMENT : ℤ) = 16 := rfl
  have hmf' : MIN_FRAGMENT = 16 := rfl
  have hq8 : QUEUESZ = 8 := rfl
  have hdvd' : (QUEUESZ : ℤ) ∣ memSize size := Int.natCast_dvd_natCast.mpr hdvd
  obtain ⟨B, o, hB⟩ := inv.heap
  unfold memMalloc
  dsimp only
  rw [if_neg (by omega)]
  by_cases hs : searchFreeArea s.cfg s.mem (memSize size) = s.cfg.freeque
  · -- allocate new page
    rw [if_neg (not_not_intro hs)]
    have hnew : ¬(s.pagesz = 0 ∨ getblk (memPages s (memSize size)) answer = none) :=
      fun h => hmem (Or.inr ⟨hs, h⟩)
    obtain ⟨hp0, hget⟩ := not_or.mp hnew
    obtain ⟨q, hget⟩ := Option.ne_none_iff_exists'.mp hget
    have hpages : memPages s (memSize size) ≠ 0 := by
      intro e
      rw [getblk, if_pos e] at hget
      cases hget
    have hans : answer = some q := by rwa [getblk, if_neg hpages] at hget
    have hroom : memSize size + 2 * QUEUESZ ≤ memPages s (memSize size) * s.pagesz := by
      by_cases htop : memSize size + 2 * QUEUESZ < 2 ^ 32
      · exact (memPages_spec (Nat.pos_of_ne_zero hp0) hpage htop).resolve_left hpages
      · -- both headers make the sum wrap to 0
        refine absurd ?_ hpages
        have e : (memSize size + QUEUESZ * 2) % 2 ^ 32 = 0 := by omega
        unfold memPages toPageCount
        rw [e, Nat.mod_eq_of_lt (by omega)]
        exact Nat.div_eq_of_lt (by omega)
    obtain ⟨c, x, w, hx, hxs, hspans, hframe⟩ := inv.toImBase.newPages o hB (hq q hans) (by
      show MIN_FRAGMENT + 2 * QUEUESZ ≤ memPages s (memSize size) * s.pagesz
      omega)
    set e := q + memPages s (memSize size) * s.pagesz % 2 ^ 32 - QUEUESZ with he
    set mem := setAreaFlag (setAreaFlag
      (insertAreaQue s.cfg (insertAreaQue s.cfg s.mem s.areaque e) s.areaque q) q AREA_TOP) e
        AREA_END with hm
    have hcode : newPage s (memSize size) answer =
        ({ s with mem := mem }, some q, [.getblk q (memPages s (memSize size))]) := by
      unfold newPage
      dsimp only
      rw [if_neg hp0, hget]
    rw [hcode]
    have base : ImBase ({ s with mem := mem } : Macb).toImacb ((q, memPages s (memSize size)) ::
        held) := by
      refine ⟨inv.dvd, inv.lt, inv.page, inv.page_pos, nofun, List.forall_mem_cons.mpr
        ⟨?_, inv.full⟩⟩
      show MIN_FRAGMENT + 2 * QUEUESZ ≤ memPages s (memSize size) * s.pagesz
      omega
    have hxs : x.size = memPages s (memSize size) * s.pagesz - 2 * QUEUESZ := hxs
    obtain ⟨h, hptr⟩ := base.allocate_step w hspans h16 hdvd' (by omega) hx.symm
    exact ⟨h.after ⟨rfl, rfl⟩ hframe, hptr⟩
  · -- free space available
    rw [if_pos hs]
    obtain ⟨c, x, w, hx, hle', hspans, hframe⟩ := o.take inv.cfgOk hs
    have base : ImBase
        ({ s with mem := removeFreeQue s.mem (searchFreeArea s.cfg s.mem (memSize size)) } :
          Macb).toImacb held :=
      ⟨inv.dvd, inv.lt, inv.page, inv.page_pos, nofun, inv.full⟩
    have hx : searchFreeArea s.cfg s.mem (memSize size) = x.addr + QUEUESZ := hx
    have haq : searchFreeArea s.cfg s.mem (memSize size) - QUEUESZ = x.addr := by
      rw [hx, Nat.add_sub_cancel]
    obtain ⟨h, hptr⟩ := base.allocate_step w (hspans.trans hB) h16 hdvd' hle' haq
    exact ⟨h.after ⟨rfl, rfl⟩ hframe, hptr⟩

/-! ## Release -/

theorem memFree_ifree (s : Macb) (out : List (ℕ × ℤ)) (held : List (ℕ × ℕ)) (h : ptr ≠ 0) :
    (memFree s ptr).1.toImacb = (ifree s.toImacb ptr false).1 ∧
      (memFree s ptr).2.foldl MemEvent.trackPages held =
        (ifree s.toImacb ptr false).2.foldl ImEvent.trackPages held ∧
      (ifree s.toImacb ptr false).2.foldl ImEvent.track out = out.filter fun o => o.1 ≠ ptr := by
  unfold memFree ifree
  rw [if_neg h]
  dsimp only
  have hcfg : s.toImacb.cfg = s.cfg := rfl
  have hmem : s.toImacb.mem = s.mem := rfl
  simp only [Bool.not_false, Bool.true_and, hcfg, hmem]
  split_ifs
  · exact ⟨rfl, rfl, rfl⟩
  · exact ⟨rfl, rfl, rfl⟩

/-- **`_mem_free`.** -/
theorem ImInv.free_step (inv : ImInv s.toImacb out held) (hptr : ptr ∈ out.map Prod.fst)
    (h0 : ptr ≠ 0) :
    MemStep s (memFree s ptr).1 (out.filter fun o => o.1 ≠ ptr) (out.filter fun o => o.1 ≠ ptr)
      ((memFree s ptr).2.foldl MemEvent.trackPages held) := by
  obtain ⟨⟨hinv, -⟩, hframe⟩ := inv.ifree hptr false
  obtain ⟨hstate, hpages, hout⟩ := memFree_ifree s out held h0
  rw [← hstate] at hinv hframe
  rw [← hpages, hout] at hinv
  refine ⟨hinv, ?_, hframe⟩
  unfold memFree
  rw [if_neg h0]
  dsimp only
  split_ifs <;> exact ⟨rfl, rfl⟩

theorem ImInv.ptr_ne_null {s : Imacb} (inv : ImInv s out held) (hptr : ptr ∈ out.map Prod.fst) :
    ptr ≠ 0 := by
  obtain ⟨B, o, -⟩ := inv.heap
  obtain ⟨c, a, -, -, rfl⟩ := o.exists_area hptr
  exact Nat.succ_ne_zero _

/-! ## Change of size -/

theorem ImInv.search_top {s : Imacb} (inv : ImInv s out held) (h : (2 ^ 32 - 2 * QUEUESZ : ℕ) < n) :
    searchFreeArea s.cfg s.mem n = s.cfg.freeque := by
  by_contra hne
  obtain ⟨B, o, -⟩ := inv.heap
  obtain ⟨c, x, w, -, hle, -⟩ := o.take inv.cfgOk hne
  obtain ⟨G, heap⟩ := w.heap
  have := heap.area_lt (mem_fill (List.mem_singleton.mpr rfl))
  have hq : QUEUESZ = 8 := rfl
  omega

theorem ImInv.shrink {s : Imacb} (inv : ImInv s out held)
    (hfst : (out'.map Prod.fst).Perm (out.map Prod.fst))
    (hle : ∀ o ∈ out', ∃ p ∈ out, p.1 = o.1 ∧ o.2 ≤ p.2) : ImInv s out' held := by
  obtain ⟨B, o, hB⟩ := inv.heap
  exact ⟨inv.toImBase, B, o.shrink hfst hle, hB⟩

theorem SameMacb.memPages (h : SameMacb s s') (n : ℕ) : memPages s' n = memPages s n := by
  unfold SmpTKernel.memPages toPageCount
  rw [h.pagesz]

theorem SameMacb.fresh {k : ℕ} (h : SameMacb s s') (fresh : Fresh s.toImacb held q k) :
    Fresh s'.toImacb held q k := by
  obtain ⟨aligned, le, apart, heads⟩ := fresh
  have ha : s'.toImacb.areaque = s.toImacb.areaque := h.areaque
  have hp : s'.toImacb.pagesz = s.toImacb.pagesz := h.pagesz
  exact ⟨aligned, by rwa [hp], by rwa [hp], by rwa [hp, ha]⟩

/-- The area of a block may grow: the state after the merging, with its old size and its size. -/
structure Merged (s s₁ : Macb) (out : List (ℕ × ℤ)) (held : List (ℕ × ℕ)) (ptr old : ℕ) (sz : ℤ) :
    Prop where
  step : MemStep s s₁ out out held
  old_le : MIN_FRAGMENT ≤ old ∧ (old : ℤ) ≤ sz
  old_dvd : QUEUESZ ∣ old
  sz_le : sz ≤ (2 ^ 32 - 2 * QUEUESZ : ℕ)
  /-- The area can be cut to the size. -/
  cut : ∀ (k : ℤ) (out' : List (ℕ × ℤ)), (MIN_FRAGMENT : ℤ) ≤ k → (QUEUESZ : ℤ) ∣ k → k ≤ sz →
    (out'.map Prod.fst).Perm (out.map Prod.fst) →
    (∀ o ∈ out', o.1 = ptr ∧ o.2 ≤ k ∨ o ∈ out ∧ o.1 ≠ ptr) →
    MemStep s₁ (allocate s₁ (ptr - QUEUESZ) k).1 ((ptr, k) :: out') out' held
  /-- To the old size exactly. -/
  restore : areaSize s₁.cfg (allocate s₁ (ptr - QUEUESZ) old).1.mem (ptr - QUEUESZ) = old

theorem ImInv.merge_step (inv : ImInv s.toImacb out held) (hptr : ptr ∈ out.map Prod.fst) :
    ∃ (old : ℕ) (sz : ℤ) (s₁ : Macb), mergeArea s ptr = (↑old, sz, s₁) ∧
      areaSize s.cfg s.mem (ptr - QUEUESZ) = old ∧ Merged s s₁ out held ptr old sz := by
  obtain ⟨B, o, hB⟩ := inv.heap
  have ok := inv.cfgOk
  obtain ⟨c, x, old, w, hx, hspans, hold, hsz, ⟨h16, hdvd⟩, hframe⟩ := o.absorb ok hptr
    (show AREA_END ||| AREA_USE < 2 ^ 3 by decide) (by decide) (by decide)
  obtain ⟨-, hasked⟩ := o.whole ok hptr
  obtain ⟨G, heap⟩ := w.heap
  have hsize := heap.areaSize_eq ok (mem_fill (List.mem_singleton.mpr rfl))
  have hlt := heap.area_lt (mem_fill (List.mem_singleton.mpr rfl))
  have haq : ptr - QUEUESZ = x.addr := by rw [hx, Nat.add_sub_cancel]
  have hmf : MIN_FRAGMENT = 16 := rfl
  have hq : QUEUESZ = 8 := rfl
  rw [haq] at hold hsize w hframe
  have hcut {k : ℤ} {out' : List (ℕ × ℤ)} (h : (MIN_FRAGMENT : ℤ) ≤ k) (hd : (QUEUESZ : ℤ) ∣ k)
    (hle : k ≤ x.size)
      (hfst : (out'.map Prod.fst).Perm (out.map Prod.fst))
      (hout : ∀ p ∈ out', p.1 = ptr ∧ p.2 ≤ k ∨ p ∈ out ∧ p.1 ≠ ptr) :=
        w.trim ok h hd hle hfst (hx ▸ hout)
  refine ⟨old, x.size, { s with mem := mergeNext s.cfg s.mem x.addr (AREA_END ||| AREA_USE) }, ?_,
    by rw [haq]; exact hold,
    ⟨⟨⟨⟨inv.dvd, inv.lt, inv.page, inv.page_pos, nofun, inv.full⟩, _, w.owned, hspans.trans hB⟩,
      ⟨rfl, rfl⟩, hframe⟩, ⟨h16, by omega⟩, hdvd, by
        omega, fun k out' h hd hle hfst hout => ?_, ?_⟩⟩
  · have hold : areaSize s.cfg s.mem x.addr = old := hold
    have hsize : areaSize s.cfg (mergeNext s.cfg s.mem x.addr (AREA_END ||| AREA_USE)) x.addr =
      x.size := hsize
    unfold mergeArea
    rw [if_pos (inv.ptr_ne_null hptr), haq]
    dsimp only
    rw [hold, hsize]
  · obtain ⟨⟨B', o', hB'⟩, hframe', -⟩ := hcut h hd hle hfst hout
    rw [haq, hx]
    exact ⟨⟨⟨inv.dvd, inv.lt, inv.page, inv.page_pos, nofun, inv.full⟩, B', o',
      hB'.trans (hspans.trans hB)⟩, ⟨rfl, rfl⟩, hframe'⟩
  · have hd : (QUEUESZ : ℤ) ∣ old := Int.natCast_dvd_natCast.mpr hdvd
    have hout (p : ℕ × ℤ) (hp : p ∈ out) : p.1 = ptr ∧ p.2 ≤ old ∨ p ∈ out ∧ p.1 ≠ ptr := by
      by_cases e : p.1 = ptr
      · exact Or.inl ⟨e, hold ▸ haq ▸ hasked p hp e⟩
      · exact Or.inr ⟨hp, e⟩
    obtain ⟨-, -, hexact⟩ := hcut (by omega) hd (by omega) (List.Perm.refl _) hout
    rw [haq]
    exact hexact (by omega)

theorem ImInv.whole {s : Imacb} (inv : ImInv s out held) (hptr : ptr ∈ out.map Prod.fst) :
    ImInv s (resized out ptr (areaSize s.cfg s.mem (ptr - QUEUESZ))) held ∧
      ∀ p ∈ out, p.1 = ptr → p.2 ≤ areaSize s.cfg s.mem (ptr - QUEUESZ) := by
  obtain ⟨B, o, hB⟩ := inv.heap
  obtain ⟨hwhole, hle⟩ := o.whole inv.cfgOk hptr
  exact ⟨⟨inv.toImBase, B, hwhole, hB⟩, hle⟩

theorem mem_map_resized : ptr ∈ (resized out ptr n).map Prod.fst := List.mem_cons_self

theorem filter_resized : (resized out ptr n).filter (fun o => o.1 ≠ ptr) = out.filter fun o =>
    o.1 ≠ ptr := by
  unfold resized
  rw [List.filter_cons_of_neg (by simp), List.filter_filter]
  simp

theorem InBlock.mono (hz : InBlock out z) (h : out ⊆ out') : InBlock out' z := by
  obtain ⟨o, ho, hz⟩ := hz
  exact ⟨o, h ho, hz⟩

/-- A block that was allocated lies apart from the others. -/
theorem ImInv.head_apart {s : Imacb} (inv : ImInv s ((ptr, n) :: out) held) (hz : InBlock out z) :
    z < ptr ∨ (ptr : ℤ) + n ≤ z := by
  obtain ⟨B, ⟨⟨G, heap⟩, -, handed⟩, -⟩ := inv.heap
  obtain ⟨o, ho, h₁, h₂⟩ := hz
  have h := (List.pairwise_cons.mp (handed.apart heap)).1 o ho
  simp only at h
  omega

theorem inBlock_head {d : ℕ} (hd : (d : ℤ) < n) : InBlock ((ptr, n) :: out) (ptr + d) := by
  refine ⟨(ptr, n), List.mem_cons_self, Nat.le_add_right _ _, ?_⟩
  show ((ptr + d : ℕ) : ℤ) < ptr + n
  omega

/-- **`_mem_realloc` with a size that is rounded to 0** releases the area. -/
theorem ImInv.realloc_free (inv : ImInv s.toImacb out held) (hptr : ptr ∈ out.map Prod.fst)
    (hsize : memSize size = 0) :
    let r := memRealloc s ptr size answer
    MemStep s r.1 (out.filter fun o => o.1 ≠ ptr) (out.filter fun o => o.1 ≠ ptr)
      (r.2.2.foldl MemEvent.trackPages held) ∧ r.2.1 = 0 ∧ .freed ptr ∈ r.2.2 := by
  obtain ⟨old, sz, s₁, hmerge, -, merged⟩ := inv.merge_step hptr
  have h0 := inv.ptr_ne_null hptr
  have hr : memRealloc s ptr size answer = ((memFree s₁ ptr).1, 0, (memFree s₁ ptr).2) := by
    have hle := merged.old_le.2
    unfold memRealloc
    simp only [hmerge, hsize]
    rw [if_pos (by omega), if_neg (lt_irrefl 0)]
  rw [hr]
  have hfree := merged.step.inv.free_step hptr h0
  refine ⟨hfree.after merged.step.same fun z hz =>
    merged.step.frame z (hz.mono (List.filter_subset_self _)), rfl, ?_⟩
  unfold memFree
  rw [if_neg h0]
  dsimp only
  split_ifs <;> exact List.mem_cons_self

/-- A new area for one that cannot grow, before and after its contents are copied. -/
theorem Merged.malloc_step {s₁ : Macb} {old : ℕ} {sz : ℤ} (merged : Merged s s₁ out held ptr old sz)
    (hpage : s.pagesz ≤ 2 ^ 32) (hlt : size < 2 ^ 32)
    (hq : ∀ a ∈ answer, Fresh s.toImacb held a (memPages s (memSize size))) (hne : memSize size ≠ 0)
    (hfit : size ≤ 2 ^ 32 - 2 * QUEUESZ ∨ s.pagesz = 0 ∨
      getblk (memPages s (memSize size)) answer = none) (hle : ¬(memSize size : ℤ) ≤ sz)
    (hno : ¬NoMem s₁ (memSize size) answer) :
    let r := memMalloc s₁ (memSize size) answer
    MemStep s₁ r.1 out ((r.2.1, (memSize size : ℤ)) :: out) (r.2.2.foldl MemEvent.trackPages held) ∧
      r.2.1 ≠ 0 ∧
      ImInv ({ r.1 with mem := memcpyCells r.1.mem r.2.1 ptr old } : Macb).toImacb
        ((r.2.1, (memSize size : ℤ)) :: out) (r.2.2.foldl MemEvent.trackPages held) := by
  have hround := memSize_memSize hlt
  have hpages := merged.step.same.memPages (memSize size)
  have hspec := memSize_spec hlt hne
  have hsmall : memSize size ≤ 2 ^ 32 - 2 * QUEUESZ := by
    by_contra htop
    have hsearch : searchFreeArea s₁.cfg s₁.mem (memSize size) = s₁.cfg.freeque :=
      merged.step.inv.search_top (by exact_mod_cast not_le.mp htop)
    refine hno (Or.inr ⟨by rwa [hround], ?_⟩)
    rw [hround, hpages, merged.step.same.pagesz]
    exact hfit.resolve_left fun h => htop (hspec.2.2.2.2 h)
  have hq8 : QUEUESZ = 8 := rfl
  obtain ⟨hstep, hptr⟩ := merged.step.inv.malloc_step (merged.step.same.pagesz ▸ hpage)
    (show memSize size < 2 ^ 32 by omega) (fun a ha => by
      rw [hround, hpages]
      exact merged.step.same.fresh (hq a ha)) hno hsmall
  rw [hround] at hstep
  refine ⟨hstep, hptr, hstep.inv.write fun y _ hy => if_neg ?_⟩
  -- the copy stays in the new area
  have hroom := merged.old_le.2.trans_lt (not_le.mp hle)
  have hy := hy _ List.mem_cons_self
  simp only at hy
  omega

/-- A merged area is cut to the new size where it is. -/
theorem Merged.shrink_step {s₁ : Macb} {old : ℕ} {sz : ℤ}
    (merged : Merged s s₁ (resized out ptr old) held ptr old sz) (hlt : size < 2 ^ 32)
    (hne : memSize size ≠ 0) (hle : (memSize size : ℤ) ≤ sz) :
    let s' := (allocate s₁ (ptr - QUEUESZ) (memSize size)).1
    MemStep s s' (out.filter fun o => o.1 ≠ ptr)
        ((ptr, (memSize size : ℤ)) :: out.filter fun o => o.1 ≠ ptr) held ∧
      ∀ d : ℕ, (d : ℤ) < old → d < memSize size → s'.mem (ptr + d) = s.mem (ptr + d) := by
  obtain ⟨h16, hdvd, -, -⟩ := memSize_spec hlt hne
  have hdvd' : (QUEUESZ : ℤ) ∣ memSize size := Int.natCast_dvd_natCast.mpr hdvd
  have hcut := merged.cut (memSize size) (resized out ptr (memSize size)) h16 hdvd' hle
    (List.Perm.refl _) fun o ho => ?_
  · refine ⟨⟨hcut.inv, merged.step.same.trans hcut.same, fun z hz => ?_⟩, fun d hd hd' => ?_⟩
    · refine (hcut.frame z (hz.mono ?_)).trans
        (merged.step.frame z (hz.mono (List.subset_cons_self _ _)))
      exact List.Subset.trans (List.subset_cons_self _ _) (List.subset_cons_self _ _)
    · refine (hcut.frame _ (inBlock_head ?_)).trans (merged.step.frame _ (inBlock_head hd))
      exact_mod_cast hd'
  · rcases mem_resized.mp ho with rfl | ⟨ho, hne⟩
    · exact Or.inl ⟨rfl, le_rfl⟩
    · exact Or.inr ⟨mem_resized.mpr (Or.inr ⟨ho, hne⟩), hne⟩

/-- The contents move to a new area, and the merged one is freed. -/
theorem Merged.move_step {s₁ : Macb} {old : ℕ} {sz : ℤ}
    (merged : Merged s s₁ (resized out ptr old) held ptr old sz) (h0 : ptr ≠ 0)
    (hpage : s.pagesz ≤ 2 ^ 32) (hlt : size < 2 ^ 32)
    (hq : ∀ a ∈ answer, Fresh s.toImacb held a (memPages s (memSize size))) (hne : memSize size ≠ 0)
    (hfit : size ≤ 2 ^ 32 - 2 * QUEUESZ ∨ s.pagesz = 0 ∨
      getblk (memPages s (memSize size)) answer = none) (hle : ¬(memSize size : ℤ) ≤ sz)
    (hno : ¬NoMem s₁ (memSize size) answer) :
    let r := memMalloc s₁ (memSize size) answer
    let s₃ : Macb := { r.1 with mem := memcpyCells r.1.mem r.2.1 ptr old }
    r.2.1 ≠ 0 ∧
      MemStep s (memFree s₃ ptr).1 (out.filter fun o => o.1 ≠ ptr)
        ((r.2.1, (memSize size : ℤ)) :: out.filter fun o => o.1 ≠ ptr)
        ((r.2.2 ++ (memFree s₃ ptr).2).foldl MemEvent.trackPages held) ∧
      ∀ d : ℕ, (d : ℤ) < old → d < memSize size →
        (memFree s₃ ptr).1.mem (r.2.1 + d) = s.mem (ptr + d) := by
  have hmalloc := merged.malloc_step hpage hlt hq hne hfit hle hno
  dsimp only at hmalloc ⊢
  generalize memMalloc s₁ (memSize size) answer = r at hmalloc ⊢
  obtain ⟨hstep, hptr, inv₃⟩ := hmalloc
  set s₃ : Macb := { r.1 with mem := memcpyCells r.1.mem r.2.1 ptr old }
  have hcopy (y : ℕ) (hy : y < r.2.1 ∨ r.2.1 + old ≤ y) : s₃.mem y = r.1.mem y := if_neg (by omega)
  have hroom : (old : ℤ) < memSize size := merged.old_le.2.trans_lt (not_le.mp hle)
  have hnp : r.2.1 ≠ ptr := fun e => inv₃.got_new (e ▸ mem_map_resized)
  have hfree := inv₃.free_step (List.mem_cons_of_mem _ mem_map_resized) h0
  have hfilter : ((r.2.1, (memSize size : ℤ)) :: resized out ptr old).filter
      (fun o => o.1 ≠ ptr) = (r.2.1, (memSize size : ℤ)) :: out.filter fun o => o.1 ≠ ptr := by
    rw [List.filter_cons_of_pos (by simpa using hnp), filter_resized]
  rw [hfilter] at hfree
  have hkept (y : ℕ) (hy : InBlock (resized out ptr old) y) : s₃.mem y = s.mem y := by
    have hout := inv₃.head_apart hy
    rw [hcopy y (by omega), hstep.frame y hy, merged.step.frame y hy]
  rw [List.foldl_append]
  refine ⟨hptr, ⟨hfree.inv, ?_, fun z hz => ?_⟩, fun d hd hd' => ?_⟩
  · have hsame : SameMacb r.1 s₃ := ⟨rfl, rfl⟩
    exact ((merged.step.same.trans hstep.same).trans hsame).trans hfree.same
  · rw [hfree.frame z (hz.mono (List.subset_cons_self _ _)),
      hkept z (hz.mono (List.subset_cons_self _ _))]
  · have hsrc : InBlock (resized out ptr old) (ptr + d) := inBlock_head hd
    have hcell : s₃.mem (r.2.1 + d) = r.1.mem (ptr + (r.2.1 + d - r.2.1)) :=
      if_pos ⟨by omega, by omega⟩
    rw [hfree.frame _ (inBlock_head (by exact_mod_cast hd')), hcell, Nat.add_sub_cancel_left,
      hstep.frame _ hsrc, merged.step.frame _ hsrc]

/-- **`_mem_realloc`.** The area changes its size in place or moves, with its bytes; or it stays as
it was. -/
theorem ImInv.realloc_step (inv : ImInv s.toImacb out held) (hptr : ptr ∈ out.map Prod.fst)
    (hpage : s.pagesz ≤ 2 ^ 32) (hlt : size < 2 ^ 32)
    (hq : ∀ a ∈ answer, Fresh s.toImacb held a (memPages s (memSize size))) (hne : memSize size ≠ 0)
    (hfit : size ≤ 2 ^ 32 - 2 * QUEUESZ ∨ s.pagesz = 0 ∨
      getblk (memPages s (memSize size)) answer = none) :
    let r := memRealloc s ptr size answer
    (r.2.1 ≠ 0 ∧
      MemStep s r.1 (out.filter fun o => o.1 ≠ ptr) ((r.2.1, (memSize size : ℤ)) ::
        out.filter fun o => o.1 ≠ ptr)
        (r.2.2.foldl MemEvent.trackPages held) ∧
      ∀ d : ℕ, d < areaSize s.cfg s.mem (ptr - QUEUESZ) → d < memSize size →
      r.1.mem (r.2.1 + d) = s.mem (ptr + d)) ∨
    (r.2.1 = 0 ∧ r.2.2 = [] ∧ MemStep s r.1 (resized out ptr (areaSize s.cfg s.mem (ptr - QUEUESZ)))
      out held ∧
      areaSize r.1.cfg r.1.mem (ptr - QUEUESZ) = areaSize s.cfg s.mem (ptr - QUEUESZ)) := by
  intro r
  obtain ⟨inv', hasked⟩ := inv.whole hptr
  have hperm := resized_perm (n := areaSize s.cfg s.mem (ptr - QUEUESZ)) inv.nodup hptr
  obtain ⟨old, sz, s₁, hmerge, hold, merged⟩ := inv'.merge_step (mem_map_resized)
  have hold' : areaSize s.toImacb.cfg s.toImacb.mem (ptr - QUEUESZ) = old := hold
  rw [hold'] at merged hasked
  rw [hold] at hperm ⊢
  have h0 := inv.ptr_ne_null hptr
  by_cases hle : (memSize size : ℤ) ≤ sz
  · -- fragment current area
    left
    have hr : r = ((allocate s₁ (ptr - QUEUESZ) (memSize size)).1, ptr, []) := by
      show memRealloc s ptr size answer = _
      unfold memRealloc
      simp only [hmerge]
      rw [if_pos hle, if_pos (Nat.pos_of_ne_zero hne)]
    rw [hr]
    exact ⟨h0, merged.shrink_step hlt hne hle⟩
  -- allocate new area
  set r₂ := memMalloc s₁ (memSize size) answer with hr₂
  have hr : r = if r₂.2.1 = 0 then ((allocate r₂.1 (ptr - QUEUESZ) old).1, 0, r₂.2.2)
      else ((memFree { r₂.1 with mem := memcpyCells r₂.1.mem r₂.2.1 ptr old } ptr).1, r₂.2.1,
        r₂.2.2 ++ (memFree { r₂.1 with mem := memcpyCells r₂.1.mem r₂.2.1 ptr old } ptr).2) := by
    show memRealloc s ptr size answer = _
    unfold memRealloc
    simp only [hmerge]
    rw [if_neg hle, if_pos h0, if_pos h0]
  by_cases hno : NoMem s₁ (memSize size) answer
  · -- reallocate original area at original size
    right
    rw [memMalloc_null hno] at hr₂
    have hr : r = ((allocate s₁ (ptr - QUEUESZ) old).1, 0, []) := by
      rw [hr, hr₂]
      rfl
    have hcut := merged.cut old out (Int.ofNat_le.mpr merged.old_le.1)
      (Int.natCast_dvd_natCast.mpr merged.old_dvd) merged.old_le.2 hperm.symm fun o ho => ?_
    · rw [hr]
      refine ⟨rfl, rfl, ⟨hcut.inv, merged.step.same.trans hcut.same, fun z hz => ?_⟩,
        merged.restore⟩
      refine (hcut.frame z (hz.mono ?_)).trans (merged.step.frame z hz)
      exact List.cons_subset_cons _ (List.filter_subset_self _)
    · by_cases e : o.1 = ptr
      · exact Or.inl ⟨e, hasked o ho e⟩
      · exact Or.inr ⟨mem_resized.mpr (Or.inr ⟨ho, e⟩), e⟩
  · left
    have hmove := merged.move_step h0 hpage hlt hq hne hfit hle hno
    rw [hr, if_neg hmove.1]
    exact hmove

end SmpTKernel
