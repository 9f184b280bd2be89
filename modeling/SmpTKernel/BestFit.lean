import SmpTKernel.AreaMoves
import SmpTKernel.Mempool
import SmpTKernel.Memalloc

/-!
# Best fit

The search of `freeque` returns the same area from the small and from the large end.
-/

namespace SmpTKernel

open LinkRing

variable {cfg : AreaCfg} {m : Mem} {L : List ℕ} {blksz : ℤ} {q q' : ℕ}

/-- `q` is the entry of the smallest size that is not below `blksz`, or `freeque` if there is
none. -/
def BestFit (cfg : AreaCfg) (m : Mem) (L : List ℕ) (blksz : ℤ) (q : ℕ) : Prop :=
  q = cfg.freeque ∧ (∀ x ∈ L, freeSize cfg m x < blksz) ∨
    q ∈ L ∧ blksz ≤ freeSize cfg m q ∧
      ∀ x ∈ L, blksz ≤ freeSize cfg m x → x ≠ q → freeSize cfg m q < freeSize cfg m x

theorem BestFit.unique (h : BestFit cfg m L blksz q) (h' : BestFit cfg m L blksz q') : q = q' := by
  rcases h with ⟨rfl, hnone⟩ | ⟨hq, hle, hleast⟩
  · rcases h' with ⟨rfl, -⟩ | ⟨hq', hle', -⟩
    · rfl
    · exact absurd (hnone q' hq') (not_lt.mpr hle')
  · rcases h' with ⟨-, hnone⟩ | ⟨hq', hle', hleast'⟩
    · exact absurd (hnone q hq) (not_lt.mpr hle)
    · by_contra hne
      exact (hleast q' hq' hle' (Ne.symm hne)).asymm (hleast' q hq hle hne)

/-- **Best fit**, from either end. -/
theorem FreeOrder.bestFit (o : FreeOrder cfg m L) (blksz : ℤ) :
    BestFit cfg m L blksz (searchFreeArea cfg m blksz) := by
  obtain ⟨a, b, rfl, ha, hb, hres⟩ := o.search blksz
  cases b with
  | nil =>
    rw [List.append_nil]
    exact Or.inl ⟨hres, ha⟩
  | cons q b =>
    rw [List.headD_cons] at hres
    rw [hres]
    refine Or.inr ⟨List.mem_append_right a List.mem_cons_self, hb q List.mem_cons_self,
      fun x hx hle hne => ?_⟩
    have hsorted := o.sorted
    rw [List.map_append, List.pairwise_append, List.map_cons, List.pairwise_cons] at hsorted
    rcases List.mem_append.mp hx with hx | hx
    · exact absurd (ha x hx) (not_lt.mpr hle)
    · exact hsorted.2.1.1 _ (List.mem_map.mpr ⟨x, (List.mem_cons.mp hx).resolve_left hne, rfl⟩)

/-- The end that the search starts from does not matter. -/
theorem FreeOrder.search_quarter (o : FreeOrder cfg m L) (cfg' : AreaCfg)
    (h₁ : cfg'.freeque = cfg.freeque) (h₂ : cfg'.toSize = cfg.toSize) (blksz : ℤ) :
    searchFreeArea cfg' m blksz = searchFreeArea cfg m blksz := by
  have hsize : freeSize cfg' m = freeSize cfg m := by
    funext x
    unfold freeSize
    rw [h₂]
  have o' : FreeOrder cfg' m L := ⟨h₁ ▸ o.ring, hsize ▸ o.sorted, o.apart, o.inside⟩
  have h := o'.bestFit blksz
  unfold BestFit at h
  rw [hsize, h₁] at h
  exact BestFit.unique h (o.bestFit blksz)

/-- **Search in the memory pool, the heap of the kernel and the heap of the library.** The area that
is found for any size depends on the queue and on the size only. -/
theorem searchFreeArea_bestFit (s : Mplcb) (k : Imacb) (l : Macb) (L : List ℕ) (blksz : ℤ) :
    (FreeOrder s.cfg s.mem L → BestFit s.cfg s.mem L blksz (searchFreeArea s.cfg s.mem blksz) ∧
      ∀ s' : Mplcb, s'.areaque = s.areaque → s'.mem = s.mem →
        searchFreeArea s'.cfg s'.mem blksz = searchFreeArea s.cfg s.mem blksz) ∧
    (FreeOrder k.cfg k.mem L → BestFit k.cfg k.mem L blksz (searchFreeArea k.cfg k.mem blksz) ∧
      ∀ k' : Imacb, k'.areaque = k.areaque → k'.mem = k.mem →
        searchFreeArea k'.cfg k'.mem blksz = searchFreeArea k.cfg k.mem blksz) ∧
    (FreeOrder l.cfg l.mem L → BestFit l.cfg l.mem L blksz (searchFreeArea l.cfg l.mem blksz) ∧
      ∀ l' : Macb, l'.areaque = l.areaque → l'.mem = l.mem →
        searchFreeArea l'.cfg l'.mem blksz = searchFreeArea l.cfg l.mem blksz) := by
  refine ⟨fun o => ⟨o.bestFit blksz, fun s' ha hm => ?_⟩, fun o =>
    ⟨o.bestFit blksz, fun k' ha hm => ?_⟩, fun o => ⟨o.bestFit blksz, fun l' ha hm => ?_⟩⟩
  · rw [hm]
    exact o.search_quarter s'.cfg (congrArg (· + QUEUESZ) ha) rfl blksz
  · rw [hm]
    exact o.search_quarter k'.cfg (congrArg (· + QUEUESZ) ha) rfl blksz
  · rw [hm]
    exact o.search_quarter l'.cfg (congrArg (· + QUEUESZ) ha) rfl blksz

/-- Two free areas, of 16 and 24 bytes, and `freeque` at 1008. -/
def twoFree : Mem := fun z =>
  if z = 1008 then ⟨2008, 2056⟩
  else if z = 2000 then ⟨2024, 1000⟩
  else if z = 2008 then ⟨2056, 1008⟩
  else if z = 2048 then ⟨2080, 2024⟩
  else if z = 2056 then ⟨1008, 2008⟩
  else ⟨0, 0⟩

theorem twoFree_order (h₁ : cfg.freeque = 1008) (h₂ : cfg.toSize 16 = 16)
    (h₃ : cfg.toSize 24 = 24) :
    FreeOrder cfg twoFree [2008, 2056] := by
  have h16 : freeSize cfg twoFree 2008 = 16 := h₂
  have h24 : freeSize cfg twoFree 2056 = 24 := h₃
  refine ⟨⟨?_, ?_⟩, ?_, by decide, by decide⟩
  · rw [h₁]
    simp [Linked, twoFree]
  · rw [h₁]
    decide
  · simp [h16, h24]

/-- The larger area is the best fit for 17 bytes, in a pool of 64 or 1024 bytes. -/
theorem searchFreeArea_bestFit_two :
    let s : Mplcb := ⟨[], 0, 64, 1000, twoFree, fun _ => 0, fun _ => 0, fun _ => ⟨0, 0⟩⟩
    let s' : Mplcb := ⟨[], 0, 1024, 1000, twoFree, fun _ => 0, fun _ => 0, fun _ => ⟨0, 0⟩⟩
    let k : Imacb := ⟨1000, 64, twoFree, []⟩
    let l : Macb := ⟨1000, 1024, twoFree⟩
    BestFit s.cfg twoFree [2008, 2056] 17 (searchFreeArea s.cfg twoFree 17) ∧
      searchFreeArea s'.cfg twoFree 17 = searchFreeArea s.cfg twoFree 17 ∧
      BestFit k.cfg twoFree [2008, 2056] 17 (searchFreeArea k.cfg twoFree 17) ∧
      BestFit l.cfg twoFree [2008, 2056] 17 (searchFreeArea l.cfg twoFree 17) := by
  intro s s' k l
  obtain ⟨hs, hk, hl⟩ := searchFreeArea_bestFit s k l [2008, 2056] 17
  obtain ⟨hpool, hsame⟩ := hs (twoFree_order rfl rfl rfl)
  exact ⟨hpool, hsame s' rfl rfl, (hk (twoFree_order rfl (by decide) (by decide))).1,
    (hl (twoFree_order rfl (by decide) (by decide))).1⟩

end SmpTKernel
