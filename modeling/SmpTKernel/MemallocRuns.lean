import SmpTKernel.MemallocInv

/-!
# Runs of the library heap

Any sequence of calls on outstanding areas, while their owners use the memory. `MemInv` is kept by
every call whose size fits, which says more than that the size can be rounded.
-/

namespace SmpTKernel

open LinkRing Words Tiling

variable {s s₀ : Macb} {out : List (ℕ × ℤ)} {held : List (ℕ × ℕ)} {ptr nmemb size z : ℕ}
  {answer : Option ℕ} {P P' : Macb → MemOp → Prop}

/-! ## Operations -/

/-- The calls, with what `getblk` finds, and the use of the memory. -/
inductive MemOp
  | malloc (size : ℕ) (q : Option ℕ)
  | calloc (nmemb size : ℕ) (q : Option ℕ)
  | realloc (ptr size : ℕ) (q : Option ℕ)
  | free (ptr : ℕ)
  | write (mem : Mem)

/-- The state after an operation, the address it returns, and what happened. -/
def MemOp.run (s : Macb) : MemOp → Macb × ℕ × List MemEvent
  | malloc size q => memMalloc s size q
  | calloc nmemb size q => memCalloc s nmemb size q
  | realloc ptr size q => memRealloc s ptr size q
  | free ptr => ((memFree s ptr).1, 0, (memFree s ptr).2)
  | write mem => ({ s with mem := mem }, 0, [])

/-- The outstanding areas after an operation that returned `p`. -/
def MemOp.track (out : List (ℕ × ℤ)) (p : ℕ) : MemOp → List (ℕ × ℤ)
  | malloc size _ => if p ≠ 0 then (p, (size : ℤ)) :: out else out
  | calloc nmemb size _ => if p ≠ 0 then (p, ((nmemb * size : ℕ) : ℤ)) :: out else out
  | realloc ptr size _ =>
    if p ≠ 0 then (p, (size : ℤ)) :: out.filter fun o => o.1 ≠ ptr
    else if size = 0 then out.filter fun o => o.1 ≠ ptr else out
  | free ptr => out.filter fun o => o.1 ≠ ptr
  | write _ => out

/-- Sizes are 32-bit, only outstanding areas and `NULL` are freed and changed, pages are fresh; the
queue heads and the blocks of pages, outstanding areas apart, are not written to. -/
def MemOp.Legal (s : Macb) (out : List (ℕ × ℤ)) (held : List (ℕ × ℕ)) : MemOp → Prop
  | malloc size q => size < 2 ^ 32 ∧ ∀ a ∈ q, Fresh s.toImacb held a (memPages s (memSize size))
  | calloc nmemb size q => (nmemb < 2 ^ 32 ∧ size < 2 ^ 32) ∧
      ∀ a ∈ q, Fresh s.toImacb held a (memPages s (memSize (nmemb * size % 2 ^ 32)))
  | realloc ptr size q => (ptr = 0 ∨ ptr ∈ out.map Prod.fst) ∧ size < 2 ^ 32 ∧
      ∀ a ∈ q, Fresh s.toImacb held a (memPages s (memSize size))
  | free ptr => ptr = 0 ∨ ptr ∈ out.map Prod.fst
  | write mem => ∀ z,
      (z = s.areaque ∨ z = s.areaque + QUEUESZ ∨ ∃ b ∈ held, b.1 ≤ z ∧ z < b.1 + b.2 * s.pagesz) →
      (∀ o ∈ out, z < o.1 ∨ (o.1 : ℤ) + o.2 ≤ z) → mem z = s.mem z

/-- Rounding the size to areas and to pages does not overflow. -/
def MemOp.SizesOk (s : Macb) : MemOp → Prop
  | malloc size _ => SizeOk s.pagesz size
  | calloc nmemb size _ => SizeOk s.pagesz (nmemb * size)
  | realloc _ size _ => SizeOk s.pagesz size
  | free _ | write _ => True

/-- `n` bytes and two headers fit in the address space, or there is no memory for what `n` is
truncated to. -/
def FitsMem (s : Macb) (n : ℕ) (q : Option ℕ) : Prop :=
  n ≤ 2 ^ 32 - 2 * QUEUESZ ∨ NoMem s (n % 2 ^ 32) q

/-- The size of an area is not rounded to 0 either. -/
def MemOp.Fits (s : Macb) : MemOp → Prop
  | malloc size q => FitsMem s size q
  | calloc nmemb size q => FitsMem s (nmemb * size) q
  | realloc ptr size q => FitsMem s size q ∧ (ptr ≠ 0 → size ≤ 2 ^ 32 - QUEUESZ)
  | free _ | write _ => True

/-- Runs of operations with the property `P`: the state, the outstanding areas and the blocks of
pages. -/
inductive MemRun (P : Macb → MemOp → Prop) (s₀ : Macb) : Macb → List (ℕ × ℤ) → List (ℕ × ℕ) → Prop
  | init : MemRun P s₀ s₀ [] []
  | step {s : Macb} {out : List (ℕ × ℤ)} {held : List (ℕ × ℕ)} (op : MemOp) :
      MemRun P s₀ s out held → op.Legal s out held → P s op →
      MemRun P s₀ (op.run s).1 (op.track out (op.run s).2.1)
        ((op.run s).2.2.foldl MemEvent.trackPages held)

theorem MemRun.mono (h : ∀ s op, P s op → P' s op) (run : MemRun P s₀ s out held) :
    MemRun P' s₀ s out held := by
  induction run with
  | init => exact .init
  | step op _ hlegal hop ih => exact .step op ih hlegal (h _ _ hop)

theorem MemOp.fits (s : Macb) (op : MemOp) (h : op.SizesOk s) : op.Fits s := by
  have hq : QUEUESZ = 8 := rfl
  have hle {n : ℕ} (h : SizeOk s.pagesz n) : n ≤ 2 ^ 32 - 2 * QUEUESZ := by
    unfold SizeOk at h
    omega
  cases op with
  | malloc size q => exact Or.inl (hle h)
  | calloc nmemb size q => exact Or.inl (hle h)
  | realloc ptr size q => exact ⟨Or.inl (hle h), fun _ => (hle h).trans (by omega)⟩
  | free ptr => trivial
  | write mem => trivial

/-! ## The invariant -/

/-- The heap, or two empty queues before a page size is known. -/
inductive MemInv (s : Macb) : List (ℕ × ℤ) → List (ℕ × ℕ) → Prop
  | unused : QUEUESZ ∣ s.areaque → s.areaque + 2 * QUEUESZ ≤ 2 ^ 32 → s.pagesz = 0 →
      OwnedHeap s.cfg imTags s.mem [] [] → MemInv s [] []
  | paged {out : List (ℕ × ℤ)} {held : List (ℕ × ℕ)} :
      s.pagesz ≤ 2 ^ 32 → ImInv s.toImacb out held → MemInv s out held

theorem memRealloc_null (s : Macb) (answer : Option ℕ) (hlt : size < 2 ^ 32) :
    memRealloc s 0 size answer = memMalloc s size answer := by
  have hround := memSize_memSize hlt
  have hmalloc : memMalloc s (memSize size) answer = memMalloc s size answer := by
    unfold memMalloc
    rw [hround]
  unfold memRealloc mergeArea
  simp only [ne_eq, not_true_eq_false, if_false]
  by_cases h : memSize size = 0
  · have hnull : memMalloc s size answer = (s, 0, []) := memMalloc_null (Or.inl h)
    rw [hnull, h, if_pos Nat.cast_zero.le, if_neg (lt_irrefl 0)]
    rfl
  · rw [if_neg (by omega), hmalloc]
    split_ifs with h0
    · rw [← h0]
    · rfl

theorem MemStep.asked {s' : Macb} {kept : List (ℕ × ℤ)} {p : ℕ} {k n : ℤ}
    (h : MemStep s s' kept ((p, k) :: out) held) (hle : n ≤ k) :
    MemStep s s' kept ((p, n) :: out) held := by
  refine ⟨h.inv.shrink (List.Perm.refl _) fun o ho => ?_, h.same, h.frame⟩
  rcases List.mem_cons.mp ho with rfl | ho
  · exact ⟨(p, k), List.mem_cons_self, rfl, hle⟩
  · exact ⟨o, List.mem_cons_of_mem _ ho, rfl, le_rfl⟩

/-- **Allocation** of `n` bytes, unless there is no memory. -/
theorem ImInv.malloc_run {n : ℕ} (inv : ImInv s.toImacb out held) (hpage : s.pagesz ≤ 2 ^ 32)
    (hfit : FitsMem s n answer)
    (hq : ∀ a ∈ answer, Fresh s.toImacb held a (memPages s (memSize (n % 2 ^ 32)))) :
    let r := memMalloc s (n % 2 ^ 32) answer
    r = (s, 0, []) ∨ n % 2 ^ 32 = n ∧ r.2.1 ≠ 0 ∧
      MemStep s r.1 out ((r.2.1, (n : ℤ)) :: out) (r.2.2.foldl MemEvent.trackPages held) := by
  intro r
  by_cases hno : NoMem s (n % 2 ^ 32) answer
  · exact Or.inl (memMalloc_null hno)
  · right
    have hle := hfit.resolve_right hno
    have hq8 : QUEUESZ = 8 := rfl
    have hmod : n % 2 ^ 32 = n := Nat.mod_eq_of_lt (by omega)
    obtain ⟨hstep, hptr⟩ :=
      inv.malloc_step hpage (Nat.mod_lt _ (by norm_num)) hq hno (by rwa [hmod])
    have hne : memSize (n % 2 ^ 32) ≠ 0 := fun e => hno (Or.inl e)
    have hsize := (memSize_spec (Nat.mod_lt _ (by norm_num)) hne).2.2.1
    rw [hmod] at hsize
    exact ⟨hmod, hptr, hstep.asked (by rw [hmod]; exact_mod_cast hsize)⟩

theorem ImInv.filter_null {s : Imacb} (inv : ImInv s out held) :
    (out.filter fun o => o.1 ≠ 0) = out :=
  List.filter_eq_self.mpr fun _ ho => decide_eq_true (inv.ptr_ne_null (List.mem_map_of_mem ho))

theorem FitsMem.unless (hfit : FitsMem s size answer) (hlt : size < 2 ^ 32)
    (hne : memSize size ≠ 0) :
    size ≤ 2 ^ 32 - 2 * QUEUESZ ∨ s.pagesz = 0 ∨ getblk (memPages s (memSize size)) answer =
      none := by
  refine hfit.imp_right fun hno => ?_
  rw [Nat.mod_eq_of_lt hlt] at hno
  exact (hno.resolve_left hne).2

/-- **One operation** keeps the heap. -/
theorem ImInv.run_mem (inv : ImInv s.toImacb out held) (hpage : s.pagesz ≤ 2 ^ 32) {op : MemOp}
    (hop : op.Legal s out held) (hfit : op.Fits s) :
    let r := op.run s
    ImInv r.1.toImacb (op.track out r.2.1) (r.2.2.foldl MemEvent.trackPages held) ∧
    SameMacb s r.1 := by
  have same : SameMacb s s := ⟨rfl, rfl⟩
  have hmalloc {size : ℕ} {q : Option ℕ} (hlt : size < 2 ^ 32) (hfit : FitsMem s size q)
      (hq : ∀ a ∈ q, Fresh s.toImacb held a (memPages s (memSize size))) :
      let r := memMalloc s size q
      ImInv r.1.toImacb (if r.2.1 ≠ 0 then (r.2.1, (size : ℤ)) :: out else out)
        (r.2.2.foldl MemEvent.trackPages held) ∧ SameMacb s r.1 := by
    have hmod : size % 2 ^ 32 = size := Nat.mod_eq_of_lt hlt
    have h := inv.malloc_run hpage hfit (by rwa [hmod])
    rw [hmod] at h
    rcases h with h | ⟨-, hptr, hstep⟩
    · rw [h]
      exact ⟨inv, same⟩
    · dsimp only
      rw [if_pos hptr]
      exact ⟨hstep.inv, hstep.same⟩
  dsimp only
  cases op with
  | malloc size q => exact hmalloc hop.1 hfit hop.2
  | calloc nmemb size q =>
    obtain ⟨-, hq⟩ := hop
    rcases inv.malloc_run hpage hfit hq with h | ⟨hmod, hptr, hstep⟩
    · have hr : memCalloc s nmemb size q = (s, 0, []) := by
        unfold memCalloc
        simp only [h, if_true]
      show ImInv (memCalloc s nmemb size q).1.toImacb _ _ ∧ SameMacb s (memCalloc s nmemb size q).1
      rw [MemOp.run, hr]
      exact ⟨inv, same⟩
    · have hr : memCalloc s nmemb size q =
          ({ (memMalloc s (nmemb * size % 2 ^ 32) q).1 with
              mem := memset (memMalloc s (nmemb * size % 2 ^ 32) q).1.mem
                (memMalloc s (nmemb * size % 2 ^ 32) q).2.1
                (nmemb * size % 2 ^ 32) },
            (memMalloc s (nmemb * size % 2 ^ 32) q).2.1,
            (memMalloc s (nmemb * size % 2 ^ 32) q).2.2) := by
        unfold memCalloc
        exact if_neg hptr
      rw [MemOp.run, hr, MemOp.track, if_pos hptr]
      refine ⟨hstep.inv.write fun z _ hz => memset_frame ?_,
        ⟨hstep.same.areaque, hstep.same.pagesz⟩⟩
      have hz := hz _ List.mem_cons_self
      simp only at hz
      omega
  | realloc ptr size q =>
    obtain ⟨hptr, hlt, hq⟩ := hop
    obtain ⟨hfit, htop⟩ := hfit
    by_cases h0 : ptr = 0
    · subst h0
      have hr := hmalloc hlt hfit hq
      rw [MemOp.run, memRealloc_null s q hlt, MemOp.track, inv.filter_null, ite_self]
      exact hr
    · have hptr := hptr.resolve_left h0
      by_cases hsize : memSize size = 0
      · have h0 : size = 0 := by
          by_contra hne
          exact memSize_ne_zero (Nat.pos_of_ne_zero hne) (htop h0) hsize
        obtain ⟨hstep, hnull, -⟩ := @ImInv.realloc_free s out held ptr size q inv hptr hsize
        rw [MemOp.run, MemOp.track, if_neg (not_not_intro hnull), if_pos h0]
        exact ⟨hstep.inv, hstep.same⟩
      · have h0 : size ≠ 0 := fun e => hsize (by rw [e, memSize_zero])
        obtain ⟨hne, hstep, -⟩ | ⟨hnull, hev, hstep, -⟩ :=
          inv.realloc_step hptr hpage hlt hq hsize (hfit.unless hlt hsize)
        · rw [MemOp.run, MemOp.track, if_pos hne]
          exact ⟨(hstep.asked (by exact_mod_cast (memSize_spec hlt hsize).2.2.1)).inv, hstep.same⟩
        · rw [MemOp.run, MemOp.track, if_neg (not_not_intro hnull), if_neg h0, hev]
          exact ⟨hstep.inv, hstep.same⟩
  | free ptr =>
    by_cases h0 : ptr = 0
    · subst h0
      rw [MemOp.track, inv.filter_null]
      exact ⟨inv, same⟩
    · have hstep := inv.free_step (Or.resolve_left hop h0) h0
      exact ⟨hstep.inv, hstep.same⟩
  | write mem => exact ⟨inv.write hop, ⟨rfl, rfl⟩⟩

theorem noMem_unused (h₁ : QUEUESZ ∣ s.areaque) (h₂ : s.areaque + 2 * QUEUESZ ≤ 2 ^ 32)
    (h₃ : s.pagesz = 0) (o : OwnedHeap s.cfg imTags s.mem [] []) (size : ℕ) (answer : Option ℕ) :
    NoMem s size answer := by
  by_cases h : memSize size = 0
  · exact Or.inl h
  · refine Or.inr ⟨?_, Or.inl h₃⟩
    obtain ⟨G, heap⟩ := o.heap
    have ok : CfgOk s.cfg imTags := @imCfgOk s.toImacb h₁ h₂
    rcases heap.search ok (memSize size) with ⟨hs, -⟩ | ⟨-, a, ha, -⟩
    · exact hs
    · exact absurd ha List.not_mem_nil

theorem MemInv.run (inv : MemInv s out held) {op : MemOp} (hop : op.Legal s out held)
    (hfit : op.Fits s) :
    let r := op.run s
    MemInv r.1 (op.track out r.2.1) (r.2.2.foldl MemEvent.trackPages held) ∧ SameMacb s r.1 := by
  cases inv with
  | paged hpage inv =>
    obtain ⟨hinv, hsame⟩ := inv.run_mem hpage hop hfit
    exact ⟨.paged (hsame.pagesz ▸ hpage) hinv, hsame⟩
  | unused h₁ h₂ h₃ o =>
    have hstay : MemInv s [] [] ∧ SameMacb s s := ⟨.unused h₁ h₂ h₃ o, ⟨rfl, rfl⟩⟩
    have hnull (size : ℕ) (q : Option ℕ) : memMalloc s size q = (s, 0, []) :=
      memMalloc_null (noMem_unused h₁ h₂ h₃ o size q)
    dsimp only
    cases op with
    | malloc size q =>
      rw [MemOp.run, hnull]
      exact hstay
    | calloc nmemb size q =>
      have hr : memCalloc s nmemb size q = (s, 0, []) := by
        unfold memCalloc
        simp only [hnull, if_true]
      rw [MemOp.run, hr]
      exact hstay
    | realloc ptr size q =>
      obtain ⟨hptr, hlt, -⟩ := hop
      rw [hptr.resolve_right List.not_mem_nil, MemOp.run, memRealloc_null s q hlt, hnull,
        MemOp.track, List.filter_nil, ite_self]
      exact hstay
    | free ptr =>
      rw [Or.resolve_right hop List.not_mem_nil]
      exact hstay
    | write mem =>
      refine ⟨.unused h₁ h₂ h₃ ?_, ⟨rfl, rfl⟩⟩
      exact o.write fun z hz _ => hop z (hz.imp_right (Or.imp_right fun ⟨_, hb, _⟩ =>
        absurd hb List.not_mem_nil)) nofun

theorem tkmInit_inv (h₁ : QUEUESZ ∣ s.areaque) (h₂ : s.areaque + 2 * QUEUESZ ≤ 2 ^ 32)
    (h₃ : QUEUESZ ∣ s.pagesz) (h₄ : s.pagesz < 2 ^ 32) : MemInv (tkmInit s) [] [] := by
  have o : OwnedHeap (tkmInit s).cfg imTags (tkmInit s).mem [] [] :=
    ⟨⟨[], heap_init (@imCfgOk s.toImacb h₁ h₂) rfl s.mem⟩, nofun, List.Perm.refl _, nofun⟩
  by_cases h0 : s.pagesz = 0
  · exact .unused h₁ h₂ h0 o
  · exact .paged h₄.le ⟨⟨h₁, h₂, h₃, Nat.pos_of_ne_zero h0, nofun, nofun⟩, [], o, rfl⟩

theorem MemRun.inv (inv : MemInv s₀ [] []) (run : MemRun MemOp.Fits s₀ s out held) :
    MemInv s out held := by
  induction run with
  | init => exact inv
  | step op _ hop hfit ih => exact (ih.run hop hfit).1

/-! ## The contents of areas -/

/-- The byte at an address. -/
def byteAt (m : Mem) (x : ℕ) : ℕ :=
  (if x % QUEUESZ < 4 then (m (x / QUEUESZ * QUEUESZ)).next
  else (m (x / QUEUESZ * QUEUESZ)).prev) / 256 ^ (x % 4) % 256

theorem byteAt_eq {m m' : Mem} {p p' i : ℕ} (hp : QUEUESZ ∣ p) (hp' : QUEUESZ ∣ p')
    (h : m' (p' + i / QUEUESZ * QUEUESZ) = m (p + i / QUEUESZ * QUEUESZ)) :
    byteAt m' (p' + i) = byteAt m (p + i) := by
  have hq : QUEUESZ = 8 := rfl
  have hcell {p : ℕ} (hp : QUEUESZ ∣ p) : (p + i) / QUEUESZ * QUEUESZ = p + i / QUEUESZ * QUEUESZ ∧
      (p + i) % QUEUESZ = i % QUEUESZ ∧ (p + i) % 4 = i % 4 := by
    rw [hq] at hp ⊢
    omega
  obtain ⟨e, e₁, e₂⟩ := hcell hp
  obtain ⟨e', e₁', e₂'⟩ := hcell hp'
  unfold byteAt
  rw [e, e₁, e₂, e', e₁', e₂', h]

theorem ImInv.aligned {s : Imacb} (inv : ImInv s out held) (hptr : ptr ∈ out.map Prod.fst) :
    QUEUESZ ∣ ptr := by
  obtain ⟨B, ⟨⟨G, heap⟩, -, handed⟩, -⟩ := inv.heap
  obtain ⟨o, ho, rfl⟩ := List.mem_map.mp hptr
  obtain ⟨a, ha, -, hao, -⟩ := handed.large o ho
  rw [← hao]
  exact Nat.dvd_add (heap.addr_dvd ha) (dvd_refl _)

/-- What `_mem_realloc` does to the contents of the area. -/
structure KeepsContent (s : Macb) (out : List (ℕ × ℤ)) (ptr size : ℕ)
    (r : Macb × ℕ × List MemEvent) : Prop where
  old_le : ∀ o ∈ out, o.1 = ptr → o.2 ≤ areaSize s.cfg s.mem (ptr - QUEUESZ)
  /-- The bytes that the old and the new area have. -/
  kept : r.2.1 ≠ 0 → ∀ i < size, (i : ℤ) < areaSize s.cfg s.mem (ptr - QUEUESZ) →
    byteAt r.1.mem (r.2.1 + i) = byteAt s.mem (ptr + i)
  /-- Without a new area the old one stays. -/
  failed : r.2.1 = 0 → size ≠ 0 →
    areaSize r.1.cfg r.1.mem (ptr - QUEUESZ) = areaSize s.cfg s.mem (ptr - QUEUESZ) ∧
      ∀ i : ℕ, i < areaSize s.cfg s.mem (ptr - QUEUESZ) →
      byteAt r.1.mem (ptr + i) = byteAt s.mem (ptr + i)

theorem ImInv.keepsContent (inv : ImInv s.toImacb out held) (hpage : s.pagesz ≤ 2 ^ 32)
    (hptr : ptr ∈ out.map Prod.fst) (hop : (MemOp.realloc ptr size answer).Legal s out held)
    (hfit : (MemOp.realloc ptr size answer).Fits s) :
    KeepsContent s out ptr size (memRealloc s ptr size answer) := by
  obtain ⟨-, hlt, hq⟩ := hop
  obtain ⟨hfit', htop⟩ := hfit
  have h0 := inv.ptr_ne_null hptr
  have hal := inv.aligned hptr
  refine ⟨(inv.whole hptr).2, fun hne i hi hold => ?_, fun hnull hsize => ?_⟩
  · have hsize : memSize size ≠ 0 := memSize_ne_zero (Nat.zero_lt_of_lt hi) (htop h0)
    have hle := (memSize_spec hlt hsize).2.2.1
    have hdiv := Nat.div_mul_le_self i QUEUESZ
    rcases inv.realloc_step hptr hpage hlt hq hsize (hfit'.unless hlt hsize) with
      ⟨-, hstep, hcells⟩ | ⟨hnull, -⟩
    · exact byteAt_eq hal (hstep.inv.aligned List.mem_cons_self) (hcells _ (by omega) (by omega))
    · exact absurd hnull hne
  · have hsize : memSize size ≠ 0 := memSize_ne_zero (Nat.pos_of_ne_zero hsize) (htop h0)
    rcases inv.realloc_step hptr hpage hlt hq hsize (hfit'.unless hlt hsize) with ⟨hne, -⟩ | ⟨-, -,
      hstep, harea⟩
    · exact absurd hnull hne
    · refine ⟨harea, fun i hi => byteAt_eq hal hal (hstep.frame _ (inBlock_head ?_))⟩
      have hdiv := Nat.div_mul_le_self i QUEUESZ
      omega

/-- **The library heap.** After any run the blocks of pages held are the blocks in `areaque`; the
areas of each fill it up to the end marker, and no two neighbours are free. The outstanding areas
are the areas in use, each aligned, at least as large as asked for and apart from the others.
`freeque` links one free area of each size in ascending order, each with the others of its size, and
these are the free areas. A change of size keeps the bytes that the old and the new area have; where
it returns `NULL` the old area stays outstanding with its size and its bytes. -/
theorem memRun_heap (h₁ : QUEUESZ ∣ s₀.areaque) (h₂ : s₀.areaque + 2 * QUEUESZ ≤ 2 ^ 32)
    (h₃ : QUEUESZ ∣ s₀.pagesz) (h₄ : s₀.pagesz < 2 ^ 32)
    (run : MemRun MemOp.SizesOk (tkmInit s₀) s out held) :
    (∃ (B : List Block) (G : List (ℕ × List ℕ)),
      (IsRing (untag 3 s.mem) s.areaque (cellsOf B) ∧ spans B = held.map (pageSpan s.pagesz) ∧
        ∀ b ∈ B, Tiles QUEUESZ b.base b.areas b.fin ∧ tagAt 3 s.mem b.fin = AREA_END ∧
          ∀ a ∈ b.areas, a.st ≠ .loose ∧ tagAt 3 s.mem a.addr =
            (if a.addr = b.base then AREA_TOP else 0) + if a.st = .used then AREA_USE else 0) ∧
      (∀ b ∈ B, b.areas.IsChain fun a b => ¬(a.st = .free ∧ b.st = .free)) ∧
      ((out.map Prod.fst).Perm
          (((areasOf B).filter fun a => a.st = .used).map fun a => a.addr + QUEUESZ) ∧
        (∀ o ∈ out, QUEUESZ ∣ o.1 ∧ ∃ a ∈ areasOf B, a.st = .used ∧ a.addr + QUEUESZ = o.1 ∧
          o.2 ≤ a.size) ∧
        out.Pairwise fun o p => (o.1 : ℤ) + o.2 ≤ p.1 ∨ (p.1 : ℤ) + p.2 ≤ o.1) ∧
      RingSet s.mem (queueRings (· + QUEUESZ) (s.areaque + QUEUESZ) G) ∧
        (G.map fun g => sizeAt s.mem g.1).Pairwise (· < ·) ∧
        (∀ g ∈ G, ∀ x ∈ g.2, sizeAt s.mem x = sizeAt s.mem g.1) ∧ (members G).Nodup ∧
        (members G).Perm (((areasOf B).filter fun a => a.st = .free).map fun a =>
          a.addr + QUEUESZ) ∧
        ∀ a ∈ areasOf B, sizeAt s.mem (a.addr + QUEUESZ) = a.size) ∧
    ∀ ptr ∈ out.map Prod.fst, ∀ (size : ℕ) (q : Option ℕ),
      (MemOp.realloc ptr size q).Legal s out held →
      SizeOk s.pagesz size →
      KeepsContent s out ptr size (memRealloc s ptr size q) ∧
        ((memRealloc s ptr size q).2.1 = 0 → size ≠ 0 →
          (MemOp.realloc ptr size q).track out (memRealloc s ptr size q).2.1 = out) := by
  have inv : MemInv s out held := (run.mono MemOp.fits).inv (tkmInit_inv h₁ h₂ h₃ h₄)
  refine ⟨?_, fun ptr hptr size q hop hsize => ⟨?_, fun hnull h0 => ?_⟩⟩
  · cases inv with
    | paged _ inv =>
      obtain ⟨B, o, hB⟩ := inv.heap
      exact ⟨B, o.shape hB⟩
    | unused _ _ _ o => exact ⟨[], @OwnedHeap.shape s.toImacb [] [] [] s.mem o rfl⟩
  · cases inv with
    | paged hpage inv =>
      exact inv.keepsContent hpage hptr hop (MemOp.fits s (.realloc ptr size q) hsize)
    | unused => exact absurd hptr List.not_mem_nil
  · rw [hnull, MemOp.track, if_neg (not_not_intro rfl), if_neg h0]

/-- Pages have 256 bytes. -/
def newMacb : Macb := tkmInit ⟨1000, 256, fun _ => ⟨0, 0⟩⟩

/-- The first area is cut from a new page. -/
def firstMacb : Macb := ((MemOp.malloc 20 (some 4096)).run newMacb).1

theorem newMacb_malloc : MemRun MemOp.SizesOk newMacb firstMacb [(4104, 20)] [(4096, 1)] := by
  have hfresh : Fresh newMacb.toImacb [] 4096 (memPages newMacb (memSize 20)) := by
    constructor <;> decide +kernel
  have run : MemRun MemOp.SizesOk newMacb ((MemOp.malloc 20 (some 4096)).run newMacb).1
      ((MemOp.malloc 20 (some 4096)).track [] ((MemOp.malloc 20 (some 4096)).run newMacb).2.1)
      (((MemOp.malloc 20 (some 4096)).run newMacb).2.2.foldl MemEvent.trackPages []) := by
    refine .step _ .init ⟨by norm_num, fun a ha => ?_⟩ (by unfold MemOp.SizesOk SizeOk; decide)
    cases ha
    exact hfresh
  have hout :
      (MemOp.malloc 20 (some 4096)).track [] ((MemOp.malloc 20 (some 4096)).run newMacb).2.1 =
      [(4104, 20)] := by
    decide +kernel
  have hheld : ((MemOp.malloc 20 (some 4096)).run newMacb).2.2.foldl MemEvent.trackPages [] =
      [(4096, 1)] := by
    decide +kernel
  rwa [hout, hheld] at run

/-- An area grows in place, with its first bytes. -/
theorem memRun_heap_grow :
    let r := memRealloc firstMacb 4104 100 none
    r.2.1 = 4104 ∧ ∀ i < 20, byteAt r.1.mem (4104 + i) = byteAt firstMacb.mem (4104 + i) := by
  intro r
  have hout : 4104 ∈ [((4104 : ℕ), (20 : ℤ))].map Prod.fst := by decide
  have hptr : r.2.1 = 4104 := by decide +kernel
  have harea : areaSize firstMacb.cfg firstMacb.mem (4104 - QUEUESZ) = 24 := by decide +kernel
  obtain ⟨-, hrealloc⟩ := memRun_heap (by decide) (by decide) (by decide) (by decide) newMacb_malloc
  obtain ⟨⟨-, hkept, -⟩, -⟩ := hrealloc 4104 hout 100 none ⟨Or.inr hout, by norm_num, nofun⟩
    (by unfold SizeOk; decide +kernel)
  have hkept : r.2.1 ≠ 0 → ∀ i : ℕ, i < 100 → (i : ℤ) < areaSize firstMacb.cfg firstMacb.mem
    (4104 - QUEUESZ) →
      byteAt r.1.mem (r.2.1 + i) = byteAt firstMacb.mem (4104 + i) := hkept
  rw [hptr, harea] at hkept
  exact ⟨hptr, fun i hi => hkept (by decide) i (by omega) (by omega)⟩

end SmpTKernel
