import SmpTKernel.AreaOwners

/-!
# Areas in use change their size

An area in use takes in the free area behind it, and is then cut to another size or to its old one.
`GrownHeap` is the state in between: every area is owned or free, and the one that has grown lies in
front of an area in use or of the end marker.
-/

namespace SmpTKernel

open LinkRing Words Tiling

variable {cfg : AreaCfg} {t : BlockTags} {m : Mem} {B : List Block} {G : List (ℕ × List ℕ)}
  {c : Place} {a x : HeapArea} {areas : List HeapArea} {out out' : List (ℕ × ℤ)} {blksz n : ℤ}
  {blk f z : ℕ}

/-! ## The blocks -/

/-- The block `ptr` is handed out with `n` bytes. -/
def resized (out : List (ℕ × ℤ)) (ptr : ℕ) (n : ℤ) : List (ℕ × ℤ) :=
  (ptr, n) :: out.filter fun o => o.1 ≠ ptr

theorem mem_resized {ptr : ℕ} {o : ℕ × ℤ} :
    o ∈ resized out ptr n ↔ o = (ptr, n) ∨ o ∈ out ∧ o.1 ≠ ptr := by
  simp [resized]

theorem resized_perm (hnd : (out.map Prod.fst).Nodup) (hblk : blk ∈ out.map Prod.fst) :
    ((resized out blk n).map Prod.fst).Perm (out.map Prod.fst) := by
  have e : (resized out blk n).map Prod.fst = blk :: (out.map Prod.fst).erase blk := by
    rw [hnd.erase_eq_filter, List.filter_map]
    simp only [resized, List.map_cons, Function.comp_def]
    refine congrArg _ (congrArg _ (List.filter_congr fun o _ => ?_))
    by_cases h : o.1 = blk <;> simp [h]
  rw [e]
  exact (List.perm_cons_erase hblk).symm

theorem HandedOut.shrink (h : HandedOut areas out)
    (hfst : (out'.map Prod.fst).Perm (out.map Prod.fst))
    (hle : ∀ o ∈ out', ∃ p ∈ out, p.1 = o.1 ∧ o.2 ≤ p.2) : HandedOut areas out' := by
  refine ⟨hfst.trans h.perm, fun o ho => ?_⟩
  obtain ⟨p, hp, e, hle⟩ := hle o ho
  obtain ⟨a, ha, hu, hao, hs⟩ := h.large p hp
  exact ⟨a, ha, hu, hao.trans e, hle.trans hs⟩

theorem OwnedHeap.shrink (o : OwnedHeap cfg t m B out)
    (hfst : (out'.map Prod.fst).Perm (out.map Prod.fst))
    (hle : ∀ o ∈ out', ∃ p ∈ out, p.1 = o.1 ∧ o.2 ≤ p.2) : OwnedHeap cfg t m B out' :=
  ⟨o.heap, o.quiet, o.handed.shrink hfst hle⟩

/-- An area in use becomes another at the same place. -/
theorem HandedOut.resize {l r r' : List HeapArea} (h : HandedOut (l ++ [a] ++ r) out)
    (hnd : ((l ++ [a] ++ r).map Area.addr).Nodup) (ha : a.st = .used) (hx : x.st = .used)
    (haddr : x.addr = a.addr)
    (hr : r.filter (fun a => a.st = .used) = r'.filter fun a => a.st = .used)
    (hfst : (out'.map Prod.fst).Perm (out.map Prod.fst))
    (hout : ∀ o ∈ out', o.1 = a.addr + QUEUESZ ∧ o.2 ≤ x.size ∨ o ∈ out ∧ (o.1 = a.addr + QUEUESZ →
      a.size ≤ x.size)) :
    HandedOut (l ++ [x] ++ r') out' := by
  have hused (k : List HeapArea) (y : HeapArea) (hy : y.st = .used) :
      (l ++ [y] ++ k).filter (fun a => a.st = .used) =
        l.filter (fun a => a.st = .used) ++ [y] ++ k.filter fun a => a.st = .used := by
    rw [List.filter_append, List.filter_append, List.filter_cons_of_pos (by rw [hy]; rfl),
      List.filter_nil]
  constructor
  · have hp := hfst.trans h.perm
    rw [hused r a ha] at hp
    rw [hused r' x hx, ← hr]
    simp only [List.map_append, List.map_singleton, haddr] at hp ⊢
    exact hp
  · intro o ho
    have hxmem : x ∈ l ++ [x] ++ r' := by simp
    rcases hout o ho with ⟨e, hle⟩ | ⟨hmem, hle⟩
    · exact ⟨x, hxmem, hx, by rw [haddr, e], hle⟩
    · obtain ⟨y, hy, hu, hyo, hs⟩ := h.large o hmem
      by_cases e : y.addr = a.addr
      · have hya : y = a := List.inj_on_of_nodup_map hnd hy (by simp) e
        subst hya
        have := hle hyo.symm
        exact ⟨x, hxmem, hx, by rw [haddr, hyo], by omega⟩
      · refine ⟨y, ?_, hu, hyo, hs⟩
        have hyr : y ∈ r ↔ y ∈ r' := by
          have h₁ : y ∈ r.filter (fun a => a.st = .used) ↔ _ := List.mem_filter
          have h₂ : y ∈ r'.filter (fun a => a.st = .used) ↔ _ := List.mem_filter
          rw [hr] at h₁
          simp only [hu, decide_true, and_true] at h₁ h₂
          rw [← h₁, h₂]
        simp only [List.mem_append, List.mem_singleton] at hy ⊢
        rcases hy with (hy | rfl) | hy
        · exact Or.inl (Or.inl hy)
        · exact absurd rfl e
        · exact Or.inr (hyr.mp hy)

/-! ## Growing -/

/-- A heap with an area `x` in use that has no free area behind it. -/
structure GrownHeap (cfg : AreaCfg) (t : BlockTags) (m : Mem) (c : Place) (x : HeapArea)
    (out : List (ℕ × ℤ)) : Prop where
  heap : ∃ G, Heap cfg t m (c.fill [x]) G
  used : x.st = .used
  left : Quiet c.left
  right : Quiet c.right
  next : UsedFirst c.right
  others : ∀ b ∈ c.before ++ c.after, Quiet b.areas
  handed : HandedOut (areasOf (c.fill [x])) out

theorem GrownHeap.owned (w : GrownHeap cfg t m c x out) : OwnedHeap cfg t m (c.fill [x]) out := by
  refine ⟨w.heap, quiet_fill.mpr ⟨?_, w.others⟩, w.handed⟩
  rw [List.append_assoc, List.singleton_append]
  exact w.left.insert w.right (by rw [w.used]; decide) (Or.inl w.used)

theorem OwnedHeap.whole (o : OwnedHeap cfg t m B out) (ok : CfgOk cfg t)
    (hblk : blk ∈ out.map Prod.fst) :
    OwnedHeap cfg t m B (resized out blk (areaSize cfg m (blk - QUEUESZ))) ∧
      ∀ p ∈ out, p.1 = blk → p.2 ≤ areaSize cfg m (blk - QUEUESZ) := by
  obtain ⟨G, h⟩ := o.heap
  obtain ⟨c, a, rfl, hu, rfl⟩ := o.exists_area hblk
  have hmem : a ∈ areasOf (c.fill [a]) := mem_fill (List.mem_singleton.mpr rfl)
  rw [Nat.add_sub_cancel, h.areaSize_eq ok hmem]
  refine ⟨⟨o.heap, o.quiet, (resized_perm (o.handed.nodup h) hblk).trans o.handed.perm,
    fun p hp => ?_⟩, fun p hp e => ?_⟩
  · rcases mem_resized.mp hp with rfl | ⟨hp, -⟩
    · exact ⟨a, hmem, hu, rfl, le_rfl⟩
    · exact o.handed.large p hp
  · obtain ⟨y, hy, -, hyo, hle⟩ := o.handed.large p hp
    have hya : y = a :=
      List.inj_on_of_nodup_map h.addr_nodup hy hmem (Nat.add_right_cancel (hyo.trans e))
    rwa [hya] at hle

/-- **An area takes in the free area behind it.** -/
theorem OwnedHeap.absorb (o : OwnedHeap cfg t m B out) (ok : CfgOk cfg t)
    (hblk : blk ∈ out.map Prod.fst) (hf : f < 2 ^ cfg.bits) (huse : AREA_USE &&& f ≠ 0)
    (hfin : t.fin &&& f ≠ 0) :
    ∃ (c : Place) (x : HeapArea) (old : ℕ), GrownHeap cfg t (mergeNext cfg m (blk - QUEUESZ) f) c x
      out ∧
      blk = x.addr + QUEUESZ ∧ spans (c.fill [x]) = spans B ∧ areaSize cfg m (blk - QUEUESZ) = old ∧
      (x.size = old ∨ old + QUEUESZ + MIN_FRAGMENT ≤ x.size) ∧
      (MIN_FRAGMENT ≤ old ∧ QUEUESZ ∣ old) ∧
      ∀ z, InBlock out z → mergeNext cfg m (blk - QUEUESZ) f z = m z := by
  obtain ⟨G, h⟩ := o.heap
  obtain ⟨c, a, rfl, hu, rfl⟩ := o.exists_area hblk
  have hmem : a ∈ areasOf (c.fill [a]) := mem_fill (List.mem_singleton.mpr rfl)
  obtain ⟨hq, hothers⟩ := quiet_fill.mp o.quiet
  rw [List.append_assoc, List.singleton_append] at hq
  obtain ⟨hql, hqr, -⟩ := hq.parts
  obtain ⟨r, s, G₁, h₁, hqr', hur', hr, hframe, -⟩ :=
    h.mergeNext_eq ok (by rw [hu]; decide) hqr hf huse hfin
  rw [Nat.add_sub_cancel]
  have hnd := h.addr_nodup
  have ho := o.handed
  refine ⟨{ c with right := r }, ⟨a.addr, s, a.st⟩, a.size,
    ⟨⟨G₁, h₁⟩, hu, hql, hqr', hur', hothers, ?_⟩, rfl, by
      rw [spans_fill, spans_fill], h.areaSize_eq ok hmem, ?_,
    h.sizes a hmem, fun z hz => hframe z (o.handed.owned hz)⟩
  · rw [areasOf_fill] at ho hnd ⊢
    refine ho.resize hnd hu hu rfl ?_ (List.Perm.refl _) fun p hp => Or.inr ⟨hp, fun _ => ?_⟩
    · rw [List.filter_append, List.filter_append]
      rcases hr with ⟨e, -⟩ | ⟨n, e, hn, -⟩
      · rw [e]
      · rw [filter_used_of_free hn (Or.inr (Or.inl e))]
    · show a.size ≤ s
      rcases hr with ⟨-, e⟩ | ⟨n, -, -, e⟩ <;> omega
  · show s = a.size ∨ a.size + QUEUESZ + MIN_FRAGMENT ≤ s
    rcases hr with ⟨-, e⟩ | ⟨n, hright, -, e⟩
    · exact Or.inl e
    · have hn : n ∈ areasOf (c.fill [a]) := by
        rw [areasOf_fill, hright]
        simp
      have := (h.sizes n hn).1
      omega

/-- **An area is cut to size.** Its bytes stay, and the size is exact unless too little would be
left over. -/
theorem GrownHeap.trim (w : GrownHeap cfg t m c x out) (ok : CfgOk cfg t)
    (h16 : (MIN_FRAGMENT : ℤ) ≤ blksz) (hdvd : (QUEUESZ : ℤ) ∣ blksz) (hle : blksz ≤ x.size)
    (hfst : (out'.map Prod.fst).Perm (out.map Prod.fst))
    (hout : ∀ o ∈ out', o.1 = x.addr + QUEUESZ ∧ o.2 ≤ blksz ∨ o ∈ out ∧ o.1 ≠ x.addr + QUEUESZ) :
    (∃ B', OwnedHeap cfg t (memAlloc cfg m x.addr blksz).2 B' out' ∧
      spans B' = spans (c.fill [x])) ∧
      (∀ z, InBlock ((x.addr + QUEUESZ, blksz) :: out') z →
        (memAlloc cfg m x.addr blksz).2 z = m z) ∧
      (x.size = blksz ∨ blksz + QUEUESZ + MIN_FRAGMENT ≤ x.size →
        areaSize cfg (memAlloc cfg m x.addr blksz).2 x.addr = blksz) := by
  obtain ⟨G, h⟩ := w.heap
  obtain ⟨s, rest, G₂, -, h₂, hs, hrest, hframe⟩ := h.alloc ok (by rw [w.used]; decide) h16 hdvd hle
  obtain ⟨hfree, hquiet⟩ := quiet_rest hrest w.right w.next
  have handed : HandedOut (areasOf (c.fill (⟨x.addr, s, .used⟩ :: rest))) out' := by
    have ho := w.handed
    have hnd := h.addr_nodup
    rw [areasOf_fill] at ho hnd ⊢
    rw [show areasOf c.before ++ c.left ++ (⟨x.addr, s, .used⟩ :: rest) ++
      (c.right ++ areasOf c.after) =
      areasOf c.before ++ c.left ++ [⟨x.addr, s, .used⟩] ++
      (rest ++ (c.right ++ areasOf c.after)) by simp]
    have hnil : rest.filter (fun a => a.st = .used) = [] := by
      refine List.filter_eq_nil_iff.mpr fun y hy => ?_
      rw [hfree y hy]
      decide
    refine ho.resize hnd w.used rfl rfl ?_ hfst fun p hp => ?_
    · rw [List.filter_append rest, hnil]
      rfl
    · exact (hout p hp).imp (fun hp => ⟨hp.1, hp.2.trans hs⟩) fun hp =>
        ⟨hp.1, fun e => absurd e hp.2⟩
  refine ⟨⟨_, ⟨⟨G₂, h₂⟩, quiet_fill.mpr ⟨?_, w.others⟩, handed⟩, by rw [spans_fill, spans_fill]⟩,
    fun z hz => hframe z ?_, fun hexact => ?_⟩
  · rw [List.append_assoc, List.cons_append]
    exact w.left.insert hquiet nofun (Or.inl rfl)
  · obtain ⟨o, ho, h₁, h₂⟩ := hz
    rcases List.mem_cons.mp ho with rfl | ho
    · exact ⟨⟨x.addr, s, x.st⟩, mem_fill (List.mem_singleton.mpr rfl), w.used, h₁, by
        have h₂ : (z : ℤ) < (x.addr + QUEUESZ : ℕ) + blksz := h₂
        show z < x.addr + QUEUESZ + s
        omega⟩
    · -- what is left over is nobody's
      refine (handed.owned ⟨o, ho, h₁, h₂⟩).mono fun b hb hu => ?_
      rw [areasOf_fill] at hb ⊢
      simp only [List.mem_append, List.mem_cons, List.not_mem_nil, or_false] at hb ⊢
      rcases hb with (hb | rfl | hb) | hb
      · exact Or.inl (Or.inl hb)
      · exact Or.inl (Or.inr (by rw [w.used]))
      · rw [hfree b hb] at hu
        cases hu
      · exact Or.inr hb
  · have hsize : (s : ℤ) = blksz := by
      rcases hrest with ⟨e, -, hlt⟩ | ⟨r, -, -, e⟩ <;> omega
    have hfirst : ⟨x.addr, s, .used⟩ ∈ areasOf (c.fill (⟨x.addr, s, .used⟩ :: rest)) :=
      mem_fill List.mem_cons_self
    exact (h₂.areaSize_eq ok hfirst).trans hsize

end SmpTKernel
