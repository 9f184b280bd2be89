import SmpTKernel.MemallocRuns

/-!
# The check of the library heap

`chkalloc` walks through `areaque` and checks flags, links and sizes of every area, without the
counts it reports. In test mode `_mem_realloc` and `_mem_free` do nothing where it finds an error;
`_mem_malloc` calls it as well, but goes on in any case.
-/

namespace SmpTKernel

open LinkRing Words Tiling

variable (testmode : ℤ) (s : Macb)

/-- The check of the area `aq`: `none` where an error is found, else the new `newpg` and
`ptr_ok`. -/
def chkArea (ptr aq : ℕ) (newpg ptrOk : Bool) : Option (Bool × Bool) :=
  if newpg && !chkAreaFlag s.mem aq AREA_TOP then none
  else if chkAreaFlag s.mem aq AREA_END then if newpg then none else some (true, ptrOk)
  else
    let nq := (s.mem aq).next
    if mask s.cfg nq ≠ nq ∨ nq ≤ aq ∨ mask s.cfg (s.mem nq).prev ≠ aq then none
    else if UINT ((nq : ℤ) - aq) < QUEUESZ * 3 then none
    else some (false, ptrOk || (chkAreaFlag s.mem aq AREA_USE && ptr = aq + QUEUESZ))

/-- The loop over the areas. -/
def chkLoop (ptr : ℕ) : ℕ → ℕ → Bool → Bool → Bool
  | 0, _, _, _ => false
  | fuel + 1, aq, newpg, ptrOk =>
    if aq ≠ s.areaque then
      match chkArea s ptr aq newpg ptrOk with
      | none => false
      | some (newpg, ptrOk) => chkLoop ptr fuel (s.mem aq).next newpg ptrOk
    else newpg && ptrOk

/-- Checks for errors in memory allocation information, and that `ptr` is an allocated block unless
it is `NULL`. -/
def chkalloc (ptr : ℕ) : Bool := chkLoop s ptr CELLS (s.mem s.areaque).next true (ptr = 0)

/-- Memory allocation error check. -/
def memMalloccheck (ptr : ℕ) : Bool := chkalloc s ptr

/-- `_mem_malloctest`: other modes only report the usage. -/
def memMalloctest (mode : ℤ) : ℤ := if mode ≥ 0 then mode else testmode

/-- Free memory, in any mode. -/
def memFreeTest (ptr : ℕ) : Macb × List MemEvent :=
  if ptr ≠ 0 ∧ testmode > 0 ∧ !chkalloc s ptr then (s, []) else memFree s ptr

/-- Memory allocation size change, in any mode. -/
def memReallocTest (ptr size : ℕ) (q : Option ℕ) : Macb × ℕ × List MemEvent :=
  if testmode > 0 ∧ !chkalloc s ptr then (s, 0, [])
  else
    let size := memSize size
    let aq := ptr - QUEUESZ
    let (oldsz, sz, s) := mergeArea s ptr
    if (size : ℤ) ≤ sz then
      if size > 0 then ((allocate s aq size).1, ptr, [])
      else
        let (s, ev) := memFreeTest testmode s ptr
        (s, 0, ev)
    else
      let (s, newptr, ev) := memMalloc s size q
      if newptr = 0 then
        if ptr ≠ 0 then ((allocate s aq oldsz).1, 0, ev) else (s, 0, ev)
      else if ptr ≠ 0 then
        let (s, ev') :=
          memFreeTest testmode { s with mem := memcpyCells s.mem newptr ptr oldsz } ptr
        (s, newptr, ev ++ ev')
      else (s, newptr, ev)

/-- An operation in any mode. -/
def MemOp.runTest : MemOp → Macb × ℕ × List MemEvent
  | realloc ptr size q => memReallocTest testmode s ptr size q
  | free ptr => ((memFreeTest testmode s ptr).1, 0, (memFreeTest testmode s ptr).2)
  | op => op.run s

/-- Runs of operations that fit, in the modes that are set. -/
inductive TestRun (s₀ : Macb) : ℤ → Macb → List (ℕ × ℤ) → List (ℕ × ℕ) → Prop
  | init : TestRun s₀ 0 s₀ [] []
  | malloctest {testmode : ℤ} {s : Macb} {out : List (ℕ × ℤ)} {held : List (ℕ × ℕ)} (mode : ℤ) :
      TestRun s₀ testmode s out held → TestRun s₀ (memMalloctest testmode mode) s out held
  | step {testmode : ℤ} {s : Macb} {out : List (ℕ × ℤ)} {held : List (ℕ × ℕ)} (op : MemOp) :
      TestRun s₀ testmode s out held → op.Legal s out held → op.Fits s →
      TestRun s₀ testmode (op.runTest testmode s).1 (op.track out (op.runTest testmode s).2.1)
        ((op.runTest testmode s).2.2.foldl MemEvent.trackPages held)

variable {testmode : ℤ} {s s₀ : Macb} {out : List (ℕ × ℤ)} {held : List (ℕ × ℕ)} {B : List Block}
  {G : List (ℕ × List ℕ)} {b : Block} {a : HeapArea} {ptr size : ℕ} {newpg ok : Bool}
  {answer : Option ℕ} {op : MemOp}

/-! ## One area -/

/-- The cell behind an area is the one of the next area or the end marker, and points back. -/
theorem Heap.next_cell {cfg : AreaCfg} {t : BlockTags} {m : Mem} (h : Heap cfg t m B G)
    (ha : a ∈ areasOf B) :
    (m a.addr).next ∈ cellsOf B ∧ (untag cfg.bits m (m a.addr).next).prev = a.addr := by
  obtain ⟨c, rfl⟩ := exists_place ha
  have r := h.ring_fill
  rw [← List.singleton_append, ← List.append_assoc] at r
  set v := c.right.map Area.addr ++ c.fin :: cellsOf c.after with hv
  have hlink := r.linked
  rw [List.getLastD_concat] at hlink
  have hn : (m a.addr).next = v.headD cfg.areaque := hlink.1
  rw [hn]
  refine ⟨?_, hlink.2⟩
  have hmem : v.headD cfg.areaque ∈ v := by
    rw [hv]
    cases c.right with
    | nil => exact List.mem_cons_self
    | cons x l => exact List.mem_cons_self
  rw [cellsOf_fill]
  exact List.mem_append_right _ hmem

/-- An area passes, at the start of a page if one is expected. -/
theorem chkArea_area (h : Heap s.cfg imTags s.mem B G) (cfgOk : CfgOk s.cfg imTags) (hb : b ∈ B)
    (ha : a ∈ b.areas) (hnew : newpg = true → a.addr = b.base) :
    chkArea s ptr a.addr newpg ok = some (false, ok || decide (a.st = .used ∧
      ptr = a.addr + QUEUESZ)) := by
  have hmem : a ∈ areasOf B := mem_areasOf.mpr ⟨b, hb, ha⟩
  have htag : tagAt s.cfg.bits s.mem a.addr = _ := h.tag b hb a ha
  have hflag {f : ℕ} (hf : f < 2 ^ 3) := @chkAreaFlag_eq s.cfg s.mem a.addr f hf
  have htop : (newpg && !chkAreaFlag s.mem a.addr AREA_TOP) = false := by
    cases newpg with
    | false => rfl
    | true =>
      rw [hflag (by decide), htag, areaTag, if_pos (hnew rfl)]
      split_ifs <;> decide
  have hend : chkAreaFlag s.mem a.addr AREA_END = false := by
    rw [hflag (by decide), htag, areaTag]
    split_ifs <;> decide
  have huse : chkAreaFlag s.mem a.addr AREA_USE = decide (a.st = .used) := by
    rw [hflag (by decide), htag, areaTag]
    by_cases hu : a.st = .used
    · rw [if_pos hu, decide_eq_true hu]
      split_ifs <;> decide
    · rw [if_neg hu, decide_eq_false hu]
      split_ifs <;> decide
  -- the links and the size
  have hq : QUEUESZ = 8 := rfl
  have hmf : MIN_FRAGMENT = 16 := rfl
  have hsize := (h.sizes a hmem).1
  have hlt := h.area_lt hmem
  have hnext := h.next hmem
  obtain ⟨hcell, hback⟩ := h.next_cell hmem
  have hmask : mask s.cfg (s.mem a.addr).next = (s.mem a.addr).next := by
    obtain ⟨hdvd, hle⟩ := h.cell_aligned cfgOk (List.mem_cons_of_mem _ hcell)
    unfold mask
    rw [clearLow_eq (by omega), Nat.div_mul_cancel hdvd]
  have hprev : mask s.cfg (s.mem (s.mem a.addr).next).prev = a.addr := by
    rw [mask_prev (h.prev_lt cfgOk hcell), hback]
  have hlarge : ¬UINT (((s.mem a.addr).next : ℤ) - a.addr) < QUEUESZ * 3 := by
    have e : ((s.mem a.addr).next : ℤ) - a.addr = (QUEUESZ + a.size : ℕ) := by omega
    rw [e, UINT_natCast (by omega)]
    omega
  unfold chkArea
  dsimp only
  rw [htop, hend, huse, if_neg Bool.false_ne_true, if_neg Bool.false_ne_true, if_neg ?_,
    if_neg hlarge, Bool.decide_and]
  rintro (hne | hle | hne)
  · exact hne hmask
  · omega
  · exact hne hprev

theorem chkArea_end (h : Heap s.cfg imTags s.mem B G) (hb : b ∈ B) :
    chkArea s ptr b.fin false ok = some (true, ok) := by
  have hend : chkAreaFlag s.mem b.fin AREA_END = true := by
    rw [@chkAreaFlag_eq s.cfg s.mem b.fin AREA_END (show 4 < 2 ^ 3 by decide), h.finTag b hb]
    decide
  unfold chkArea
  rw [hend]
  rfl

/-! ## The loop -/

theorem Heap.cell_ne {cfg : AreaCfg} {t : BlockTags} {m : Mem} {x : ℕ} (h : Heap cfg t m B G)
    (hx : x ∈ cellsOf B) :
    x ≠ cfg.areaque := by
  rintro rfl
  exact (List.nodup_cons.mp h.ring.nodup).1 hx

/-- Through the rest of a block. -/
theorem chkLoop_block (h : Heap s.cfg imTags s.mem B G) (cfgOk : CfgOk s.cfg imTags) (hb : b ∈ B)
    {n : ℕ} :
    ∀ (l l₁ : List HeapArea) {newpg ok : Bool}, b.areas = l₁ ++ l →
      (newpg = true → l₁ = [] ∧ l ≠ []) →
      chkLoop s ptr (n + (l.length + 1)) ((l.map Area.addr).headD b.fin) newpg ok =
        chkLoop s ptr n (s.mem b.fin).next true
          (ok || l.any fun a => a.st = .used ∧ ptr = a.addr + QUEUESZ) := by
  intro l
  induction l with
  | nil =>
    intro l₁ newpg ok e hnew
    have hfin : b.fin ≠ s.areaque := h.cell_ne (mem_cellsOf.mpr ⟨b, hb, Or.inl rfl⟩)
    have hnp : newpg = false := Bool.eq_false_iff.mpr fun hc => (hnew hc).2 rfl
    rw [hnp]
    show chkLoop s ptr (n + 1) b.fin false ok = _
    rw [chkLoop, if_pos hfin, chkArea_end h hb, List.any_nil, Bool.or_false]
  | cons a l ih =>
    intro l₁ newpg ok e hnew
    have ha : a ∈ b.areas := e ▸ List.mem_append_right l₁ List.mem_cons_self
    have hne : a.addr ≠ s.areaque := h.cell_ne (mem_cellsOf.mpr ⟨b, hb, Or.inr ⟨a, ha, rfl⟩⟩)
    have ht := h.tiles b hb
    rw [e] at ht
    have hbase (hn : newpg = true) : a.addr = b.base := by
      rw [(hnew hn).1] at ht
      exact ht.1
    have hnext : (s.mem a.addr).next = (l.map Area.addr).headD b.fin := by
      rw [h.next (mem_areasOf.mpr ⟨b, hb, ha⟩)]
      cases l with
      | nil => exact ht.last.symm
      | cons x l => exact ht.next.symm
    have e' : b.areas = (l₁ ++ [a]) ++ l := by rw [e, List.append_assoc]; rfl
    show chkLoop s ptr ((n + (l.length + 1)) + 1) a.addr newpg ok = _
    rw [chkLoop, if_pos hne, chkArea_area h cfgOk hb ha hbase]
    show chkLoop s ptr (n + (l.length + 1)) (s.mem a.addr).next false _ = _
    rw [hnext, @ih (l₁ ++ [a]) false _ e' nofun, List.any_cons, Bool.or_assoc]

/-- Through the rest of the blocks. -/
theorem chkLoop_blocks (h : Heap s.cfg imTags s.mem B G) (cfgOk : CfgOk s.cfg imTags)
    (hfull : ∀ b ∈ B, b.areas ≠ []) {n : ℕ} :
    ∀ (C B₁ : List Block) {ok : Bool}, B = B₁ ++ C →
      chkLoop s ptr (n + 1 + (cellsOf C).length) ((cellsOf C).headD s.areaque) true ok =
        (ok || (areasOf C).any fun a => a.st = .used ∧ ptr = a.addr + QUEUESZ) := by
  intro C
  induction C with
  | nil =>
    intro B₁ ok e
    show chkLoop s ptr (n + 1) s.areaque true ok = _
    rw [chkLoop, if_neg (not_not_intro rfl)]
    exact (Bool.or_false ok).symm
  | cons b C ih =>
    intro B₁ ok e
    have hb : b ∈ B := e ▸ List.mem_append_right B₁ List.mem_cons_self
    have hcells : cellsOf (b :: C) = b.areas.map Area.addr ++ b.fin :: cellsOf C := by
      simp [cellsOf, Block.cells]
    have hhead : (cellsOf (b :: C)).headD s.areaque = (b.areas.map Area.addr).headD b.fin := by
      rw [hcells]
      cases b.areas <;> rfl
    have hlen : n + 1 + (cellsOf (b :: C)).length =
        (n + 1 + (cellsOf C).length) + (b.areas.length + 1) := by
      rw [hcells, List.length_append, List.length_map, List.length_cons]
      omega
    have hnext : (s.mem b.fin).next = (cellsOf C).headD s.areaque := by
      have r := h.ring
      have hB : cellsOf B = (cellsOf B₁ ++ b.areas.map Area.addr) ++ b.fin :: cellsOf C := by
        rw [e, List.append_assoc, ← hcells]
        exact List.flatMap_append
      rw [hB] at r
      exact r.next_mid
    rw [hhead, hlen, chkLoop_block h cfgOk hb b.areas [] rfl fun _ => ⟨rfl, hfull b hb⟩, hnext,
      ih (B₁ ++ [b]) (by rw [e, List.append_assoc]; rfl)]
    show _ = (ok || (b.areas ++ areasOf C).any _)
    rw [List.any_append, Bool.or_assoc]

theorem Heap.cells_lt {cfg : AreaCfg} {t : BlockTags} {m : Mem} (h : Heap cfg t m B G)
    (hdvd : QUEUESZ ∣ cfg.areaque) (hlt : cfg.areaque + QUEUESZ ≤ 2 ^ 32) :
    (cellsOf B).length < CELLS := by
  have hq : QUEUESZ = 8 := rfl
  have hcell (x : ℕ) (hx : x ∈ cfg.areaque :: cellsOf B) : 8 ∣ x ∧ x + 8 ≤ 2 ^ 32 := by
    rcases List.mem_cons.mp hx with rfl | hx
    · exact ⟨hdvd, hlt⟩
    · exact ⟨h.cell_dvd hx, h.cell_lt hx⟩
  refine length_le_cells (h.ring.nodup.imp_of_mem fun hx hy hne => ?_) fun x hx => (hcell x hx).2
  have := hcell _ hx
  have := hcell _ hy
  omega

/-- **The check** finds no error, and the pointer exactly if it is an outstanding area. -/
theorem OwnedHeap.chkalloc_iff (o : OwnedHeap s.cfg imTags s.mem B out) (hdvd : QUEUESZ ∣ s.areaque)
    (hlt : s.areaque + 2 * QUEUESZ ≤ 2 ^ 32) (hfull : ∀ b ∈ B, b.areas ≠ []) :
    chkalloc s ptr = true ↔ ptr = 0 ∨ ptr ∈ out.map Prod.fst := by
  have cfgOk : CfgOk s.cfg imTags := @imCfgOk s.toImacb hdvd hlt
  obtain ⟨G, h⟩ := o.heap
  have hcells := h.cells_lt hdvd (show s.areaque + QUEUESZ ≤ 2 ^ 32 by omega)
  obtain ⟨n, hn⟩ : ∃ n, CELLS = n + 1 + (cellsOf B).length :=
    ⟨CELLS - 1 - (cellsOf B).length, by omega⟩
  have hhead : (s.mem s.areaque).next = (cellsOf B).headD s.areaque := h.ring.next_head
  unfold chkalloc
  rw [hhead, hn, chkLoop_blocks h cfgOk hfull B [] rfl, Bool.or_eq_true, decide_eq_true_iff,
    o.handed.perm.mem_iff, List.any_eq_true, List.mem_map]
  simp only [decide_eq_true_eq, List.mem_filter]
  constructor
  · rintro (h0 | ⟨a, ha, hu, rfl⟩)
    · exact Or.inl h0
    · exact Or.inr ⟨a, ⟨ha, hu⟩, rfl⟩
  · rintro (h0 | ⟨a, ⟨ha, hu⟩, rfl⟩)
    · exact Or.inl h0
    · exact Or.inr ⟨a, ha, hu, rfl⟩

theorem ImInv.chkalloc_iff (inv : ImInv s.toImacb out held) :
    chkalloc s ptr = true ↔ ptr = 0 ∨ ptr ∈ out.map Prod.fst := by
  obtain ⟨B, o, hB⟩ := inv.heap
  refine OwnedHeap.chkalloc_iff o inv.dvd inv.lt fun b hb hnil => ?_
  -- a block has room for an area
  obtain ⟨G, h⟩ := o.heap
  have ht := h.tiles b hb
  rw [hnil] at ht
  have hfin : b.base = b.fin := ht
  obtain ⟨p, hp, hbase, hend⟩ := inv.exists_held hB hb
  have hroom := inv.full p hp
  have hq : QUEUESZ = 8 := rfl
  omega

theorem MemInv.chkalloc_iff (inv : MemInv s out held) :
    chkalloc s ptr = true ↔ ptr = 0 ∨ ptr ∈ out.map Prod.fst := by
  cases inv with
  | unused h₁ h₂ _ o => exact o.chkalloc_iff h₁ h₂ nofun
  | paged _ inv => exact inv.chkalloc_iff

/-! ## Test mode -/

theorem memFreeTest_eq (h : ptr = 0 ∨ chkalloc s ptr = true) :
    memFreeTest testmode s ptr = memFree s ptr := by
  refine if_neg ?_
  rintro ⟨h0, -, hchk⟩
  rw [h.resolve_left h0] at hchk
  exact absurd hchk (by decide)

/-- **`_mem_realloc`** finds no error, between its steps either. -/
theorem MemInv.reallocTest_eq (inv : MemInv s out held)
    (hop : (MemOp.realloc ptr size answer).Legal s out held)
    (hfit : (MemOp.realloc ptr size answer).Fits s) :
    memReallocTest testmode s ptr size answer = memRealloc s ptr size answer := by
  obtain ⟨hptr, hlt, hq⟩ := hop
  have hchk : ¬(testmode > 0 ∧ !chkalloc s ptr) := by
    rw [inv.chkalloc_iff.mpr hptr]
    exact fun h => absurd h.2 (by decide)
  unfold memReallocTest memRealloc
  rw [if_neg hchk]
  dsimp only
  by_cases h0 : ptr = 0
  · rw [h0, memFreeTest_eq (Or.inl rfl)]
    simp only [ne_eq, not_true_eq_false, if_false]
  · have hptr := hptr.resolve_left h0
    cases inv with
    | unused => exact absurd hptr List.not_mem_nil
    | paged hpage inv =>
      obtain ⟨old, sz, s₁, hmerge, -, merged⟩ := inv.merge_step hptr
      have hmerged : chkalloc s₁ ptr = true := merged.step.inv.chkalloc_iff.mpr (Or.inr hptr)
      simp only [hmerge]
      rw [memFreeTest_eq (Or.inr hmerged)]
      by_cases hle : (memSize size : ℤ) ≤ sz
      · rw [if_pos hle, if_pos hle]
      · rw [if_neg hle, if_neg hle]
        by_cases hnull : (memMalloc s₁ (memSize size) answer).2.1 = 0
        · rw [if_pos hnull, if_pos hnull]
        · -- the old area is still outstanding after the copy
          have hne : memSize size ≠ 0 := fun e => hle (by have := merged.old_le; omega)
          obtain ⟨-, -, inv₃⟩ := merged.malloc_step hpage hlt hq hne (hfit.1.unless hlt hne) hle
            fun hno => hnull (by rw [memMalloc_null hno])
          rw [memFreeTest_eq
            (Or.inr (inv₃.chkalloc_iff.mpr (Or.inr (List.mem_cons_of_mem _ hptr))))]

/-- **Test mode changes nothing.** -/
theorem MemInv.runTest_eq (testmode : ℤ) (inv : MemInv s out held) (hop : op.Legal s out held)
    (hfit : op.Fits s) :
    op.runTest testmode s = op.run s := by
  cases op with
  | malloc size q => rfl
  | calloc nmemb size q => rfl
  | realloc ptr size q => exact inv.reallocTest_eq hop hfit
  | free ptr =>
    have hfree : memFreeTest testmode s ptr = memFree s ptr :=
      memFreeTest_eq (Or.inr (inv.chkalloc_iff.mpr hop))
    show ((memFreeTest testmode s ptr).1, 0, (memFreeTest testmode s ptr).2) = _
    rw [hfree]
    rfl
  | write mem => rfl

theorem TestRun.off (inv : MemInv s₀ [] []) (run : TestRun s₀ testmode s out held) :
    MemRun MemOp.Fits s₀ s out held := by
  induction run with
  | init => exact .init
  | malloctest mode _ ih => exact ih
  | step op _ hop hfit ih =>
    rw [(ih.inv inv).runTest_eq _ hop hfit]
    exact .step op ih hop hfit

/-- Every run with test mode off is one in any mode that can be set. -/
theorem MemRun.inMode (inv : MemInv s₀ [] []) (run : MemRun MemOp.Fits s₀ s out held) {mode : ℤ}
    (hmode : 0 ≤ mode) :
    TestRun s₀ mode s out held := by
  induction run with
  | init =>
    have h := TestRun.malloctest mode (.init : TestRun s₀ 0 s₀ [] [])
    rwa [memMalloctest, if_pos hmode] at h
  | step op run hop hfit ih =>
    rw [← (run.inv inv).runTest_eq mode hop hfit]
    exact ih.step op hop hfit

/-- **The check of the heap.** After any run of operations that fit, in any modes, the check finds
no error, and says of a pointer whether it is an outstanding area; and every operation does in test
mode what it does without. -/
theorem testRun_check (h₁ : QUEUESZ ∣ s₀.areaque) (h₂ : s₀.areaque + 2 * QUEUESZ ≤ 2 ^ 32)
    (h₃ : QUEUESZ ∣ s₀.pagesz) (h₄ : s₀.pagesz < 2 ^ 32)
    (run : TestRun (tkmInit s₀) testmode s out held) :
    memMalloccheck s 0 = true ∧
      (∀ ptr, ptr ≠ 0 → (memMalloccheck s ptr = true ↔ ptr ∈ out.map Prod.fst)) ∧
      ∀ (mode : ℤ) (op : MemOp), op.Legal s out held → op.Fits s →
        op.runTest mode s = op.run s := by
  have init := tkmInit_inv h₁ h₂ h₃ h₄
  have inv : MemInv s out held := (run.off init).inv init
  refine ⟨inv.chkalloc_iff.mpr (Or.inl rfl), fun ptr h0 => ?_, fun mode op hop hfit =>
    inv.runTest_eq mode hop hfit⟩
  exact inv.chkalloc_iff.trans (or_iff_right h0)

/-- In test mode the first area of a page is found, and the rest of the page is not. -/
theorem testRun_check_first :
    memMalloccheck firstMacb 4104 = true ∧ memMalloccheck firstMacb 4136 = false := by
  have init : MemInv newMacb [] [] := tkmInit_inv (by decide) (by decide) (by decide) (by decide)
  have run : TestRun newMacb 1 firstMacb [(4104, 20)] [(4096, 1)] :=
    (newMacb_malloc.mono MemOp.fits).inMode init (by decide)
  obtain ⟨-, hiff, -⟩ := testRun_check (by decide) (by decide) (by decide) (by decide) run
  refine ⟨(hiff 4104 (by decide)).mpr (by decide), ?_⟩
  rw [Bool.eq_false_iff, Ne, hiff 4136 (by decide)]
  decide

end SmpTKernel
