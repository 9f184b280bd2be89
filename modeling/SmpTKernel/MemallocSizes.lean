import SmpTKernel.ImallocSizes
import SmpTKernel.MemallocRuns

/-!
# Sizes near the top of `size_t`

What the library calls return for any sizes, and with the calls of the kernel when an area has room
for all bytes that were asked for.
-/

namespace SmpTKernel

open LinkRing Words Tiling

variable {s s₀ s₁ : Macb} {out : List (ℕ × ℤ)} {held : List (ℕ × ℕ)} {b : ℕ × ℕ}
  {ptr nmemb size : ℕ} {answer : Option ℕ} {op : MemOp}

/-- The number of bytes that the caller wants. -/
def MemOp.bytes : MemOp → ℕ
  | malloc size _ => size
  | calloc nmemb size _ => nmemb * size
  | realloc _ size _ => size
  | free _ | write _ => 0

/-- A call returns `NULL` or an area with room for the bytes, and frees no area that it should
change. -/
def MemOp.Safe (s : Macb) (out : List (ℕ × ℤ)) (held : List (ℕ × ℕ)) (op : MemOp) : Prop :=
  let r := op.run s
  (r.2.1 ≠ 0 →
    AreaRoom r.1.toImacb (op.track out r.2.1) (r.2.2.foldl MemEvent.trackPages held) r.2.1
      op.bytes) ∧
  ∀ ptr size q, op = .realloc ptr size q → size ≠ 0 → .freed ptr ∈ r.2.2 → r.2.1 ≠ 0

/-! ## Calls that fit -/

theorem memMalloc_events (s : Macb) (size : ℕ) (answer : Option ℕ) :
    (memMalloc s size answer).2.2 = [] ∨
      ∃ q ∈ answer, (memMalloc s size answer).2.2 = [.getblk q (memPages s (memSize size))] := by
  unfold memMalloc newPage getblk
  dsimp only
  split_ifs
  · exact Or.inl rfl
  · exact Or.inl rfl
  · exact Or.inl rfl
  · exact Or.inl rfl
  · cases answer with
    | none => exact Or.inl rfl
    | some q => exact Or.inr ⟨q, rfl, rfl⟩

theorem mem_track {p : ℕ} (op : MemOp) (hp : (op.run s).2.1 = p) (h0 : p ≠ 0) :
    (p, (op.bytes : ℤ)) ∈ op.track out p := by
  cases op with
  | malloc size q =>
    rw [MemOp.track, if_pos h0]
    exact List.mem_cons_self
  | calloc nmemb size q =>
    rw [MemOp.track, if_pos h0]
    exact List.mem_cons_self
  | realloc ptr size q =>
    rw [MemOp.track, if_pos h0]
    exact List.mem_cons_self
  | free ptr => exact absurd hp.symm h0
  | write mem => exact absurd hp.symm h0

theorem MemInv.room {n : ℤ} (inv : MemInv s out held) (h : (ptr, n) ∈ out) :
    AreaRoom s.toImacb out held ptr n := by
  cases inv with
  | unused => exact absurd h List.not_mem_nil
  | paged _ inv => exact inv.room h le_rfl

theorem freed_not_mem_malloc (s : Macb) (size p : ℕ) (answer : Option ℕ) :
    .freed p ∉ (memMalloc s size answer).2.2 := by
  rcases memMalloc_events s size answer with e | ⟨q, -, e⟩ <;> rw [e] <;> simp

/-- **One call that fits** is safe. -/
theorem MemInv.safe (inv : MemInv s out held) (hop : op.Legal s out held) (hfit : op.Fits s) :
    op.Safe s out held := by
  obtain ⟨hinv, -⟩ := inv.run hop hfit
  refine ⟨fun h0 => hinv.room (mem_track op rfl h0), ?_⟩
  rintro ptr size q rfl hsize hfreed hnull
  obtain ⟨hptr, hlt, hq⟩ := hop
  obtain ⟨hfit, htop⟩ := hfit
  have hfreed : .freed ptr ∈ (memRealloc s ptr size q).2.2 := hfreed
  by_cases h0 : ptr = 0
  · subst h0
    rw [memRealloc_null s q hlt] at hfreed
    exact freed_not_mem_malloc s size 0 q hfreed
  · have hptr := hptr.resolve_left h0
    cases inv with
    | unused => exact absurd hptr List.not_mem_nil
    | paged hpage inv =>
      have hne : memSize size ≠ 0 := memSize_ne_zero (Nat.pos_of_ne_zero hsize) (htop h0)
      rcases inv.realloc_step hptr hpage hlt hq hne (hfit.unless hlt hne) with ⟨h, -⟩ | ⟨-, hev, -⟩
      · exact h hnull
      · rw [hev] at hfreed
        exact absurd hfreed List.not_mem_nil

/-! ## Calls that do not fit -/

theorem ImInv.blocks (inv : ImInv s.toImacb out held) : ∀ b ∈ held, b.1 + b.2 * s.pagesz ≤ 2 ^ 32 :=
  fun _ hb => (inv.block_le hb).1

/-- Without room for two headers in the address space there is none in a block. -/
theorem not_areaRoom_top {n : ℕ} (hn : 2 ^ 32 - 2 * QUEUESZ < n)
    (h : ∀ b ∈ held, b.1 + b.2 * s.pagesz ≤ 2 ^ 32) :
    ¬AreaRoom s.toImacb out held ptr n := by
  rintro ⟨⟨b, hb, h₁, h₂⟩, -⟩
  have hq : QUEUESZ = 8 := rfl
  have hle := h b hb
  have h₂ : (ptr : ℤ) + n + QUEUESZ ≤ (b.1 : ℤ) + (b.2 * s.pagesz : ℕ) := by exact_mod_cast h₂
  omega

theorem memMalloc_pagesz (s : Macb) (size : ℕ) (answer : Option ℕ) :
    (memMalloc s size answer).1.pagesz = s.pagesz := by
  unfold memMalloc newPage
  dsimp only
  split_ifs
  · rfl
  · rfl
  · rfl
  · cases getblk (memPages s (memSize size)) answer <;> rfl

theorem memMalloc_ne_null (hno : ¬NoMem s size answer) : (memMalloc s size answer).2.1 ≠ 0 := by
  obtain ⟨hne, hfree⟩ := not_or.mp hno
  unfold memMalloc
  dsimp only
  rw [if_neg (by omega)]
  by_cases hs : searchFreeArea s.cfg s.mem (memSize size) = s.cfg.freeque
  · obtain ⟨hp, hget⟩ := not_or.mp fun h => hfree ⟨hs, h⟩
    obtain ⟨q, hget⟩ := Option.ne_none_iff_exists'.mp hget
    unfold newPage
    dsimp only
    rw [if_neg (not_not_intro hs), if_neg hp, hget]
    exact Nat.succ_ne_zero _
  · rw [if_pos hs]
    exact Nat.succ_ne_zero _

theorem memMalloc_blocks (hq : ∀ a ∈ answer, Fresh s.toImacb held a (memPages s (memSize size)))
    (h : ∀ b ∈ held, b.1 + b.2 * s.pagesz ≤ 2 ^ 32) :
    ∀ b ∈ (memMalloc s size answer).2.2.foldl MemEvent.trackPages held, b.1 + b.2 * s.pagesz ≤
      2 ^ 32 := by
  rcases memMalloc_events s size answer with e | ⟨q, hmem, e⟩
  · rw [e]
    exact h
  · rw [e]
    exact List.forall_mem_cons.mpr ⟨(hq q hmem).le, h⟩

theorem memFree_blocks (s : Macb) (ptr : ℕ) (held : List (ℕ × ℕ)) :
    (memFree s ptr).1.pagesz = s.pagesz ∧ (memFree s ptr).2.foldl MemEvent.trackPages held ⊆
    held := by
  unfold memFree
  dsimp only
  split_ifs
  · exact ⟨rfl, List.Subset.refl _⟩
  · exact ⟨rfl, List.filter_subset_self _⟩
  · exact ⟨rfl, List.Subset.refl _⟩

/-- An area that is returned for too many bytes has no room for them. -/
theorem not_safe_top {r : Macb × ℕ × List MemEvent} {out' : List (ℕ × ℤ)} {n : ℕ}
    (hr : op.run s = r) (hn : op.bytes = n) (hout : op.track out r.2.1 = out')
    (htop : 2 ^ 32 - 2 * QUEUESZ < n) (h0 : r.2.1 ≠ 0) (hp : r.1.pagesz = s.pagesz)
    (h : ∀ b ∈ r.2.2.foldl MemEvent.trackPages held, b.1 + b.2 * s.pagesz ≤ 2 ^ 32) :
    ¬op.Safe s out held := by
  rintro ⟨hroom, -⟩
  rw [hr, hn, hout] at hroom
  exact @not_areaRoom_top r.1 _ _ _ n htop (by rwa [hp]) (hroom h0)

/-- **One call that does not fit** is not safe. -/
theorem ImInv.not_safe (inv : ImInv s.toImacb out held) (hop : op.Legal s out held)
    (hfit : ¬op.Fits s) :
    ¬op.Safe s out held := by
  cases op with
  | malloc size q =>
    obtain ⟨hlt, hq⟩ := hop
    obtain ⟨htop, hno⟩ := not_or.mp hfit
    rw [Nat.mod_eq_of_lt hlt] at hno
    exact not_safe_top rfl rfl rfl (by show _ < size; omega) (memMalloc_ne_null hno)
      (memMalloc_pagesz ..)
      (memMalloc_blocks hq inv.blocks)
  | calloc nmemb size q =>
    obtain ⟨-, hq⟩ := hop
    obtain ⟨htop, hno⟩ := not_or.mp hfit
    have h0 := memMalloc_ne_null hno
    have hr : memCalloc s nmemb size q =
        ({ (memMalloc s (nmemb * size % 2 ^ 32) q).1 with
            mem := memset (memMalloc s (nmemb * size % 2 ^ 32) q).1.mem
              (memMalloc s (nmemb * size % 2 ^ 32) q).2.1
              (nmemb * size % 2 ^ 32) },
          (memMalloc s (nmemb * size % 2 ^ 32) q).2.1,
          (memMalloc s (nmemb * size % 2 ^ 32) q).2.2) := by
      unfold memCalloc
      exact if_neg h0
    exact not_safe_top hr rfl rfl (by show _ < nmemb * size; omega) h0 (memMalloc_pagesz ..)
      (memMalloc_blocks hq inv.blocks)
  | realloc ptr size q =>
    obtain ⟨hptr, hlt, hq⟩ := hop
    by_cases h0 : ptr = 0
    · subst h0
      have hfit : ¬FitsMem s size q := fun h => hfit ⟨h, fun h => absurd rfl h⟩
      obtain ⟨htop, hno⟩ := not_or.mp hfit
      rw [Nat.mod_eq_of_lt hlt] at hno
      exact not_safe_top (memRealloc_null s q hlt) rfl rfl (by show _ < size; omega)
        (memMalloc_ne_null hno)
        (memMalloc_pagesz ..) (memMalloc_blocks hq inv.blocks)
    · have hptr := hptr.resolve_left h0
      by_cases hsize : memSize size = 0
      · -- the area is released
        obtain ⟨-, hnull, hfreed⟩ := @ImInv.realloc_free s out held ptr size q inv hptr hsize
        have hne : size ≠ 0 := by
          rintro rfl
          exact hfit ⟨Or.inl (Nat.zero_le _), fun _ => Nat.zero_le _⟩
        exact fun hsafe => hsafe.2 ptr size q rfl hne hfreed hnull
      · have hle : size ≤ 2 ^ 32 - QUEUESZ := by
          by_contra htop
          exact hsize (memSize_top (by omega) hlt)
        obtain ⟨htop, hno⟩ := not_or.mp fun h : FitsMem s size q => hfit ⟨h, fun _ => hle⟩
        rw [Nat.mod_eq_of_lt hlt] at hno
        obtain ⟨old, sz, s₁, hmerge, -, merged⟩ := inv.merge_step hptr
        have hround := memSize_memSize hlt
        have hpages := merged.step.same.memPages (memSize size)
        have hsz := (memSize_spec hlt hsize).2.2.1
        have hsz_le := merged.sz_le
        -- no area is large enough, so that the pages decide
        have hsearch : searchFreeArea s.cfg s.mem (memSize size) = s.cfg.freeque :=
          inv.search_top (by omega)
        have hno₁ : ¬NoMem s₁ (memSize size) q := by
          rintro (h | ⟨-, h⟩)
          · exact hsize (hround.symm.trans h)
          · rw [hround, hpages, merged.step.same.pagesz] at h
            exact hno (Or.inr ⟨hsearch, h⟩)
        have hnp := memMalloc_ne_null hno₁
        set r₂ := memMalloc s₁ (memSize size) q with hr₂
        set s₃ : Macb := { r₂.1 with mem := memcpyCells r₂.1.mem r₂.2.1 ptr old } with hs₃
        have hr :
            memRealloc s ptr size q = ((memFree s₃ ptr).1, r₂.2.1, r₂.2.2 ++
              (memFree s₃ ptr).2) := by
          unfold memRealloc
          simp only [hmerge]
          rw [if_neg (by omega), ← hr₂, if_neg hnp, if_pos h0]
        have hblocks := memMalloc_blocks (fun a ha => by
          rw [hround, hpages]
          exact merged.step.same.fresh (hq a ha)) merged.step.inv.blocks
        obtain ⟨hpagesz, hsub⟩ := memFree_blocks s₃ ptr (r₂.2.2.foldl MemEvent.trackPages held)
        have hsame : r₂.1.pagesz = s.pagesz := (memMalloc_pagesz ..).trans merged.step.same.pagesz
        refine not_safe_top hr rfl rfl (by show _ < size; omega) hnp (hpagesz.trans hsame)
          fun b hb => ?_
        rw [List.foldl_append] at hb
        have hle := hblocks b (hsub hb)
        rwa [merged.step.same.pagesz] at hle
  | free ptr => exact absurd trivial hfit
  | write mem => exact absurd trivial hfit

theorem MemInv.safe_iff (inv : MemInv s out held) (hop : op.Legal s out held) :
    op.Safe s out held ↔ op.Fits s := by
  refine ⟨fun hsafe => ?_, fun hfit => inv.safe hop hfit⟩
  by_contra hfit
  cases inv with
  | paged _ inv => exact inv.not_safe hop hfit hsafe
  | unused h₁ h₂ h₃ o =>
    have hno := noMem_unused h₁ h₂ h₃ o
    cases op with
    | malloc size q => exact hfit (Or.inr (hno _ q))
    | calloc nmemb size q => exact hfit (Or.inr (hno _ q))
    | realloc ptr size q => exact hfit ⟨Or.inr (hno _ q), fun h =>
        absurd (hop.1.resolve_right List.not_mem_nil) h⟩
    | free ptr => exact hfit trivial
    | write mem => exact hfit trivial

/-- **Sizes near the top of `size_t`.** After any run of operations that fit, the next one is safe
exactly if it fits. A call of the kernel fits if rounding the bytes to areas and to pages does not
overflow, or if nothing is found for what they are truncated to; a call of the library if the bytes
and two headers do not overflow, or if there is no memory for what the bytes are truncated to, and a
change of size if it is not rounded to 0 as well. -/
theorem heap_sizes (k₀ k : Imacb) (asked : List (ℕ × Bool)) (s₀ s : Macb) (out : List (ℕ × ℤ))
    (held : List (ℕ × ℕ)) :
    (QUEUESZ ∣ k₀.areaque → k₀.areaque + 2 * QUEUESZ ≤ 2 ^ 32 → QUEUESZ ∣ k₀.pagesz →
      k₀.pagesz ∣ 2 ^ 32 → k₀.pagesz < 2 ^ 32 →
      ImSizeRun (initIMACB k₀) k asked out held → ∀ o : ImSizeOp, o.Legal k asked out held →
        (o.Safe k out held ↔ o.Fits k)) ∧
    (QUEUESZ ∣ s₀.areaque → s₀.areaque + 2 * QUEUESZ ≤ 2 ^ 32 → QUEUESZ ∣ s₀.pagesz →
      s₀.pagesz < 2 ^ 32 →
      MemRun MemOp.Fits (tkmInit s₀) s out held → ∀ op : MemOp, op.Legal s out held →
        (op.Safe s out held ↔ op.Fits s)) := by
  constructor
  · intro h₁ h₂ h₃ hdvd hlt run o hop
    have hpos : 0 < k₀.pagesz := Nat.pos_of_dvd_of_pos hdvd (by norm_num)
    obtain ⟨inv, hp⟩ := run.inv (initIMACB_idle h₁ h₂ h₃ hpos)
    have hp : k.pagesz = k₀.pagesz := hp
    refine ⟨fun hsafe => ?_, fun hfit => (sizeOp_step inv hop hfit).2⟩
    by_contra hfit
    exact not_safe inv (hp ▸ hdvd) (hp ▸ hlt) hop hfit hsafe
  · intro h₁ h₂ h₃ h₄ run op hop
    exact (run.inv (tkmInit_inv h₁ h₂ h₃ h₄)).safe_iff hop

/-- A change of size that fits is safe; an area for the largest rounded size, of a page that is
found for it, is not. -/
theorem heap_sizes_first : (MemOp.realloc 4104 100 none).Safe firstMacb [(4104, 20)] [(4096, 1)] ∧
    ¬(MemOp.malloc 0xFFFFFFF8 (some 8192)).Safe firstMacb [(4104, 20)] [(4096, 1)] := by
  have hiff (op : MemOp) (hop : op.Legal firstMacb [(4104, 20)] [(4096, 1)]) :=
    (heap_sizes newImacb newImacb [] _ firstMacb _ _).2 (by decide) (by decide) (by decide)
    (by decide)
      (newMacb_malloc.mono MemOp.fits) op hop
  have hfresh :
      Fresh firstMacb.toImacb [(4096, 1)] 8192 (memPages firstMacb (memSize 0xFFFFFFF8)) := by
    constructor <;> decide +kernel
  constructor
  · exact (hiff (.realloc 4104 100 none) ⟨Or.inr (by decide), by norm_num, nofun⟩).mpr
      ⟨Or.inl (by decide), fun _ => by decide⟩
  · rw [hiff (.malloc 0xFFFFFFF8 (some 8192)) ⟨by norm_num, fun a ha => by cases ha; exact hfresh⟩]
    rintro (h | h | ⟨-, h | h⟩)
    · exact absurd h (by decide)
    · exact absurd h (by decide +kernel)
    · exact absurd h (by decide +kernel)
    · exact absurd h (by decide +kernel)

/-- A change to a size at the top frees the area and returns `NULL`; `icalloc` for 65536 * 65537
bytes returns an area of 257 pages. -/
theorem heap_sizes_wrap :
    (∃ (s : Macb) (out : List (ℕ × ℤ)) (held : List (ℕ × ℕ)), MemRun MemOp.Fits newMacb s out held ∧
      ∃ op : MemOp, op.Legal s out held ∧ ¬op.Safe s out held) ∧
    ∃ (s : Imacb) (asked : List (ℕ × Bool)) (out : List (ℕ × ℤ)) (held : List (ℕ × ℕ)),
      ImSizeRun newImacb s asked out held ∧ ∃ o : ImSizeOp, o.Legal s asked out held ∧
        ¬o.Safe s out held := by
  constructor
  · refine ⟨firstMacb, _, _, newMacb_malloc.mono MemOp.fits, .realloc 4104 0xFFFFFFFF none,
      ⟨Or.inr (by decide), by norm_num, nofun⟩, fun hsafe => ?_⟩
    have hfreed : .freed 4104 ∈ ((MemOp.realloc 4104 0xFFFFFFFF none).run firstMacb).2.2 := by
      decide +kernel
    exact hsafe.2 4104 0xFFFFFFFF none rfl (by norm_num) hfreed (by decide +kernel)
  · -- nothing is free, so that the call gets pages
    have hev : ((ImSizeOp.calloc 65536 65537).op.run newImacb).2 = [] := by decide +kernel
    have run : ImSizeRun newImacb ((ImSizeOp.calloc 65536 65537).op.run newImacb).1
        ((ImSizeOp.calloc 65536 65537).trackAsked [] ((ImSizeOp.calloc 65536 65537).op.run
          newImacb).2)
        (((ImSizeOp.calloc 65536 65537).op.run newImacb).2.foldl ImEvent.track [])
        (((ImSizeOp.calloc 65536 65537).op.run newImacb).2.foldl ImEvent.trackPages []) :=
      .step _ .init ⟨by norm_num, by norm_num⟩ (Or.inr (by decide +kernel))
    set s := ((ImSizeOp.calloc 65536 65537).op.run newImacb).1 with hs
    rw [hev] at run
    have hfresh : Fresh s [] 4096 (imPages s ⟨65536 * 65537 % 2 ^ 32, true⟩) := by
      constructor <;> decide +kernel
    have hop : (ImSizeOp.pages (65536 * 65537) true (some 4096)).Legal s [(65536 * 65537, true)] []
        [] :=
      ⟨List.mem_cons_self, fun a ha => by cases ha; exact hfresh⟩
    have inv : ImInv s.idle [] [] :=
      (run.inv (initIMACB_idle (by decide) (by decide) (by decide) (by decide))).1
    refine ⟨s, _, _, _, run, _, hop, not_safe inv (by decide +kernel) (by decide +kernel) hop ?_⟩
    rintro (h | h)
    · unfold SizeOk at h
      exact absurd h (by decide +kernel)
    · cases h

end SmpTKernel
