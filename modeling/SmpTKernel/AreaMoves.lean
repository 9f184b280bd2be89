import SmpTKernel.AreaHeap

/-!
# Moves on the heap

What the routines of `AreaQueue` do to the areas at one place: an area leaves `freeque` and becomes
loose, a loose one is registered, cut, joined with its neighbour or put in use. Allocation and
coalescing are sequences of these moves.
-/

namespace SmpTKernel

open LinkRing Words Tiling

variable {cfg : AreaCfg} {t : BlockTags} {m m' : Mem} {c : Place} {G : List (ℕ × List ℕ)}
  {a n : HeapArea} {mid mid' : List HeapArea} {x z : ℕ}

/-! ## The place of a neighbour -/

theorem fill_fst (c : Place) (a n : HeapArea) :
    c.fill [a, n] = ({ c with right := n :: c.right }).fill [a] := by
  simp [Place.fill]

theorem fill_snd (c : Place) (a n : HeapArea) :
    c.fill [a, n] = ({ c with left := c.left ++ [a] }).fill [n] := by
  simp [Place.fill]

theorem fill_next {l : List HeapArea} (hr : c.right = n :: l) (a : HeapArea) :
    c.fill [a] = ({ c with right := l }).fill [a, n] := by
  simp [Place.fill, hr]

theorem fill_prev {l : List HeapArea} (hl : c.left = l ++ [a]) (n : HeapArea) :
    c.fill [n] = ({ c with left := l }).fill [a, n] := by
  simp [Place.fill, hl]

theorem cell_fill (ha : a ∈ mid) : a.addr ∈ cellsOf (c.fill mid) := by
  rw [cellsOf_fill]
  exact List.mem_append_left _ (List.mem_append_right _ (List.mem_map.mpr ⟨a, ha, rfl⟩))

theorem cellsOf_setState (c : Place) (a : HeapArea) (st : AreaState) :
    cellsOf (c.fill [{ a with st := st }]) = cellsOf (c.fill [a]) := by
  rw [cellsOf_fill, cellsOf_fill]
  rfl

theorem Heap.tiles_fill (h : Heap cfg t m (c.fill mid) G) :
    Tiles QUEUESZ c.base (c.left ++ mid ++ c.right) c.fin :=
  h.tiles _ block_mem_fill

theorem Heap.tiles_setState (h : Heap cfg t m (c.fill [a]) G) (st : AreaState) :
    Tiles QUEUESZ c.base (c.left ++ [{ a with st := st }] ++ c.right) c.fin := by
  have ht := h.tiles_fill
  rw [List.append_assoc, List.singleton_append] at ht ⊢
  exact ht.setState st

theorem Heap.sizes_fill (h : Heap cfg t m (c.fill mid) G) (ha : a ∈ mid) :
    MIN_FRAGMENT ≤ a.size ∧ QUEUESZ ∣ a.size :=
  h.sizes a (mem_fill ha)

/-! ## Flags -/

/-- An area that is not free changes its flags. -/
theorem Heap.retag (h : Heap cfg t m (c.fill [a]) G) (ok : CfgOk cfg t) {v : ℕ} {st : AreaState}
    (hst : a.st ≠ .free) (hst' : st ≠ .free)
    (hv : v / 2 ^ cfg.bits * 2 ^ cfg.bits = (untag cfg.bits m a.addr).prev)
    (htag : v % 2 ^ cfg.bits = areaTag t c.base { a with st := st }) :
    Heap cfg t (setPrev m a.addr v) (c.fill [{ a with st := st }]) G := by
  have hun : untag cfg.bits (setPrev m a.addr v) = untag cfg.bits m := by
    funext z
    by_cases e : z = a.addr
    · subst e
      ext
      · rw [untag_next, untag_next, setPrev_next]
      · rw [untag_prev, setPrev_prev, if_pos rfl]
        exact hv
    · refine untag_eq_of_eq ?_
      rw [setPrev_apply, if_neg e]
  have hframe (z : ℕ) (hz : z ≠ a.addr) : setPrev m a.addr v z = m z := by
    rw [setPrev_apply, if_neg hz]
  have hcell : a.addr ∈ cfg.areaque :: cellsOf (c.fill [a]) :=
    List.mem_cons_of_mem _ (cell_fill (List.mem_singleton.mpr rfl))
  refine h.edit (h.tiles_setState st) ?_ ?_ ?_ ?_ (h.buckets_congr ?_ ?_) ?_
  · intro a' ha'
    have hs := h.sizes_fill (List.mem_singleton.mpr rfl : a ∈ [a])
    rw [List.mem_singleton.mp ha']
    exact hs
  · rw [hun, cellsOf_setState]
    exact h.ring
  · intro a' ha'
    rw [List.mem_singleton.mp ha', tagAt, setPrev_prev, if_pos rfl]
    exact htag
  · intro z _ hz
    exact tagAt_eq_of_eq (hframe z fun e => hz (List.mem_singleton.mpr e))
  · intro z hz
    exact hframe z fun e => h.node_not_cell ok hz (e ▸ hcell)
  · intro a' _ _
    exact setPrev_next m a.addr v a'.addr
  · refine h.free.trans (List.Perm.of_eq (freeCells_fill_congr ?_))
    rw [List.filter_singleton, List.filter_singleton, show decide (a.st = .free) =
      false from decide_eq_false hst, show decide (st = .free) = false from decide_eq_false hst']
    rfl

theorem Heap.tag_fill (h : Heap cfg t m (c.fill [a]) G) :
    tagAt cfg.bits m a.addr = areaTag t c.base a :=
  h.tag _ block_mem_fill a (List.mem_append_left _ (List.mem_append_right _
    (List.mem_singleton.mpr rfl)))

theorem areaTag_div (ok : CfgOk cfg t) (base : ℕ) (a : HeapArea) (st : AreaState) :
    areaTag t base { a with st := st } = areaTag t base a / 2 * 2 + if st = .used then
      AREA_USE else 0 := by
  have htop := ok.top_even
  have hu : AREA_USE = 1 := rfl
  unfold areaTag
  split_ifs <;> omega

/-- Setting bits in a tagged word changes the tag only. -/
theorem Heap.tag_low (h : Heap cfg t m (c.fill [a]) G) (ok : CfgOk cfg t) {u : ℕ}
    (hlt : areaTag t c.base a / 2 * 2 + u < 2 ^ cfg.bits) :
    ((m a.addr).prev / 2 * 2 + u) / 2 ^ cfg.bits * 2 ^ cfg.bits = (untag cfg.bits m a.addr).prev ∧
      ((m a.addr).prev / 2 * 2 + u) % 2 ^ cfg.bits = areaTag t c.base a / 2 * 2 + u := by
  have hcell : a.addr ∈ cellsOf (c.fill [a]) := cell_fill (List.mem_singleton.mpr rfl)
  have hal := (h.cell_aligned ok (h.prev_mem hcell).1).1
  have htag := h.tag_fill
  have h2 : 2 ∣ (untag cfg.bits m a.addr).prev :=
    (dvd_pow_self 2 ok.bits_pos.ne').trans hal
  have e : (m a.addr).prev / 2 * 2 + u =
      (untag cfg.bits m a.addr).prev + (areaTag t c.base a / 2 * 2 + u) := by
    rw [prev_eq cfg.bits m a.addr, htag]
    omega
  rw [e]
  exact ⟨add_div_low hal hlt, add_mod_low hal hlt⟩

theorem Heap.areaTag_lt (h : Heap cfg t m (c.fill [a]) G) : areaTag t c.base a < 2 ^ cfg.bits := by
  rw [← h.tag_fill]
  exact tagAt_lt cfg.bits m a.addr

theorem two_dvd_bits (ok : CfgOk cfg t) : 2 ∣ 2 ^ cfg.bits := dvd_pow_self 2 ok.bits_pos.ne'

/-- A loose area is put in use, or one in use stays so. -/
theorem Heap.setUsed (h : Heap cfg t m (c.fill [a]) G) (ok : CfgOk cfg t) (ha : a.st ≠ .free) :
    Heap cfg t (setAreaFlag m a.addr AREA_USE) (c.fill [{ a with st := .used }]) G := by
  have hlt := h.areaTag_lt
  have h2 := two_dvd_bits ok
  obtain ⟨h₁, h₂⟩ := h.tag_low ok (u := 1) (by omega)
  unfold setAreaFlag
  rw [or_one]
  refine h.retag ok ha (by decide) h₁ ?_
  rw [areaTag_div ok c.base a .used, if_pos rfl]
  exact h₂

theorem and_not_one {x : ℕ} (h : x < 2 ^ 32) : x &&& (2 ^ 32 - 1 ^^^ AREA_USE) = x / 2 * 2 :=
  clearLow_eq (w := 32) (k := 1) h

theorem Heap.clrUsed (h : Heap cfg t m (c.fill [a]) G) (ok : CfgOk cfg t) (ha : a.st = .used) :
    Heap cfg t (clrAreaFlag m a.addr AREA_USE) (c.fill [{ a with st := .loose }]) G := by
  have hlt := h.areaTag_lt
  obtain ⟨h₁, h₂⟩ := h.tag_low ok (u := 0) (by omega)
  unfold clrAreaFlag
  rw [and_not_one (h.prev_lt ok (cell_fill (List.mem_singleton.mpr rfl)))]
  refine h.retag ok (by rw [ha]; decide) (by decide) h₁ ?_
  rw [areaTag_div ok c.base a .loose, if_neg (by decide)]
  exact h₂

theorem Heap.clr_loose (h : Heap cfg t m (c.fill [a]) G) (ok : CfgOk cfg t) (ha : a.st ≠ .used) :
    clrAreaFlag m a.addr AREA_USE = m := by
  have hlt := h.areaTag_lt
  obtain ⟨h₁, h₂⟩ := h.tag_low ok (u := 0) (by omega)
  have htag := h.tag_fill
  have hte : areaTag t c.base a / 2 * 2 + 0 = areaTag t c.base a := by
    have := areaTag_div ok c.base a a.st
    rw [if_neg ha] at this
    exact this.symm
  have hv : (m a.addr).prev / 2 * 2 = (m a.addr).prev := by
    have d := Nat.div_add_mod ((m a.addr).prev / 2 * 2 + 0) (2 ^ cfg.bits)
    rw [Nat.mul_comm, h₁, h₂, hte, ← htag, ← prev_eq] at d
    exact d.symm
  unfold clrAreaFlag
  rw [and_not_one (h.prev_lt ok (cell_fill (List.mem_singleton.mpr rfl))), hv]
  funext z
  rw [setPrev_apply]
  split_ifs with e
  · rw [e]
  · rfl

/-! ## The memory of the owners -/

/-- The cell belongs to the owner of an area in use. -/
def Owned (areas : List HeapArea) (z : ℕ) : Prop :=
  ∃ a ∈ areas, a.st = .used ∧ a.addr + QUEUESZ ≤ z ∧ z < a.addr + QUEUESZ + a.size

theorem Owned.mono {l l' : List HeapArea} (h : ∀ a ∈ l, a.st = .used → a ∈ l') (hz : Owned l z) :
    Owned l' z := by
  obtain ⟨a, ha, hu, hz⟩ := hz
  exact ⟨a, h a ha hu, hu, hz⟩

/-- The queues do not run through the memory of the owners. -/
theorem Heap.owned {B : List Block} (h : Heap cfg t m B G) (hz : Owned (areasOf B) z) :
    z ∉ cfg.areaque :: cellsOf B ∧ z ∉ nodes (queueRings (· + QUEUESZ) cfg.freeque G) := by
  obtain ⟨a, ha, hu, h₁, h₂⟩ := hz
  have hq : QUEUESZ = 8 := rfl
  have hin := h.inside ha (x := z) (by omega) h₂
  exact ⟨fun hc => (List.mem_cons.mp hc).elim hin.1 hin.2.2, h.not_node ha (by rw [hu]; decide)
    (by omega) h₂⟩

theorem Heap.owned_ne (h : Heap cfg t m (c.fill mid) G) (ha : a ∈ mid)
    (hz : Owned (areasOf (c.fill mid)) z) :
    z ≠ a.addr :=
  fun e => (h.owned hz).1 (e ▸ List.mem_cons_of_mem _ (cell_fill ha))

/-! ## In and out of `freeque` -/

/-- The queue of free areas changes, the cells of `areaque` do not. -/
theorem Heap.requeue (h : Heap cfg t m (c.fill [a]) G) {G' : List (ℕ × List ℕ)} {st : AreaState}
    (hst : a.st ≠ .used) (hst' : st ≠ .used)
    (hm : ∀ z ∈ cfg.areaque :: cellsOf (c.fill [a]), m' z = m z)
    (hb : Buckets (· + QUEUESZ) (sizeAt m) cfg.freeque m' G')
    (hmem : ∀ x ∈ members G', ∃ a' ∈ areasOf (c.fill [a]), x = a'.addr + QUEUESZ)
    (hf : (members G').Perm (freeCells (c.fill [{ a with st := st }]))) :
    Heap cfg t m' (c.fill [{ a with st := st }]) G' := by
  refine h.edit (h.tiles_setState st) ?_ ?_ ?_ ?_ (hb.congr (fun _ _ => rfl) ?_) hf
  · intro a' ha'
    have hs := h.sizes_fill (List.mem_singleton.mpr rfl : a ∈ [a])
    rw [List.mem_singleton.mp ha']
    exact hs
  · rw [cellsOf_setState]
    exact h.ring.congr fun z hz => untag_eq_of_eq (hm z hz)
  · intro a' ha'
    have hcell : a.addr ∈ cfg.areaque :: cellsOf (c.fill [a]) :=
      List.mem_cons_of_mem _ (cell_fill (List.mem_singleton.mpr rfl))
    rw [List.mem_singleton.mp ha', tagAt_eq_of_eq (hm a.addr hcell), h.tag_fill]
    unfold areaTag
    rw [if_neg hst, if_neg hst']
  · exact fun z hz _ => tagAt_eq_of_eq (hm z hz)
  · intro x hx
    obtain ⟨a', ha', rfl⟩ := hmem x hx
    have hcell : a'.addr ∈ cellsOf (c.fill [a]) := by
      obtain ⟨b, hb, hab⟩ := mem_areasOf.mp ha'
      exact mem_cellsOf.mpr ⟨b, hb, Or.inr ⟨a', hab, rfl⟩⟩
    unfold sizeAt
    rw [Nat.add_sub_cancel, hm a'.addr (List.mem_cons_of_mem _ hcell)]

theorem Heap.take (h : Heap cfg t m (c.fill [a]) G) (ok : CfgOk cfg t) (ha : a.st = .free) :
    ∃ G', Heap cfg t (removeFreeQue m (a.addr + QUEUESZ)) (c.fill [{ a with st := .loose }])
      G' := by
  have hmem : a.addr + QUEUESZ ∈ members G :=
    h.mem_members.mpr ⟨a, mem_fill (List.mem_singleton.mpr rfl), ha, rfl⟩
  obtain ⟨G', hb, hp, hm⟩ := removeFreeQue_spec h.buckets hmem
  refine ⟨G', h.requeue (by rw [ha]; decide) (by decide) ?_ hb ?_ ?_⟩
  · exact fun z hz => hm z fun hc => h.node_not_cell ok hc hz
  · intro x hx
    obtain ⟨a', ha', -, e⟩ := h.mem_members.mp (hp.symm.subset (List.mem_cons_of_mem _ hx))
    exact ⟨a', ha', e⟩
  · exact (List.perm_cons _).mp ((hp.symm.trans h.free).trans (freeCells_fill_free ha nofun))

theorem Heap.take_frame (h : Heap cfg t m (c.fill [a]) G) (ha : a.st = .free)
    (hz : z ∉ nodes (queueRings (· + QUEUESZ) cfg.freeque G)) :
    removeFreeQue m (a.addr + QUEUESZ) z = m z := by
  have hmem : a.addr + QUEUESZ ∈ members G :=
    h.mem_members.mpr ⟨a, mem_fill (List.mem_singleton.mpr rfl), ha, rfl⟩
  obtain ⟨G', -, -, hm⟩ := removeFreeQue_spec h.buckets hmem
  exact hm z hz

theorem Heap.sizes_exact {B : List Block} (h : Heap cfg t m B G) (ok : CfgOk cfg t) :
    ∀ x ∈ members G, freeSize cfg m x = sizeAt m x := by
  intro x hx
  obtain ⟨a, ha, -, rfl⟩ := h.mem_members.mp hx
  rw [h.freeSize_eq ok ha, h.sizeAt_eq ha]

/-- The leaders of the buckets are a well-formed queue. -/
theorem Heap.freeOrder {B : List Block} (h : Heap cfg t m B G) (ok : CfgOk cfg t) :
    FreeOrder cfg m (G.map Prod.fst) := by
  have hmem {x : ℕ} (hx : x ∈ G.map Prod.fst) : x ∈ members G := by
    obtain ⟨g, hg, rfl⟩ := List.mem_map.mp hx
    exact mem_nodes.mpr ⟨g, hg, List.mem_cons_self⟩
  have hcell (x : ℕ) (hx : x ∈ G.map Prod.fst) : 8 ∣ x ∧ 8 ≤ x ∧ x + 8 ≤ 2 ^ 32 := by
    obtain ⟨a, ha, -, e⟩ := h.mem_members.mp (hmem hx)
    have hdvd : 8 ∣ a.addr := h.addr_dvd ha
    have := h.area_lt ha
    have hq : QUEUESZ = 8 := rfl
    omega
  have hnd := (List.nodup_cons.mp h.buckets.rings.head.nodup).2
  refine ⟨h.buckets.rings.head, ?_, hnd.imp_of_mem fun {x y} hx hy hne => ?_, fun x hx =>
    (hcell x hx).2⟩
  · have hsorted := h.buckets.sorted
    rw [List.pairwise_map] at hsorted ⊢
    rw [List.pairwise_map]
    refine hsorted.imp_of_mem fun {g g'} hg hg' hlt => ?_
    rw [h.sizes_exact ok _ (hmem (List.mem_map.mpr ⟨g, hg, rfl⟩)),
      h.sizes_exact ok _ (hmem (List.mem_map.mpr ⟨g', hg', rfl⟩))]
    exact Int.ofNat_lt.mpr hlt
  · have := hcell x hx
    have := hcell y hy
    have hq : QUEUESZ = 8 := rfl
    omega

/-- A loose area is registered. -/
theorem Heap.put (h : Heap cfg t m (c.fill [a]) G) (ok : CfgOk cfg t) (ha : a.st = .loose) :
    (∃ G', Heap cfg t (appendFreeArea cfg m a.addr) (c.fill [{ a with st := .free }]) G') ∧
      (∀ z, Owned (areasOf (c.fill [a])) z → appendFreeArea cfg m a.addr z = m z) ∧
      ∀ z, z ∉ nodes (queueRings (· + QUEUESZ) cfg.freeque G) → z ≠ a.addr + QUEUESZ →
        z ≠ a.addr + QUEUESZ + QUEUESZ → appendFreeArea cfg m a.addr z = m z := by
  have hmem : a ∈ areasOf (c.fill [a]) := mem_fill (List.mem_singleton.mpr rfl)
  have hs := (h.sizes a hmem).1
  have hq : QUEUESZ = 8 := rfl
  have hmf : MIN_FRAGMENT = 16 := rfl
  have hnf : a.st ≠ .free := by rw [ha]; decide
  have hsz : sizeAt m (a.addr + QUEUESZ) = a.size := h.sizeAt_eq hmem
  obtain ⟨G', hb, hp, hm⟩ := registerFree_spec h.buckets (h.freeOrder ok) (h.sizes_exact ok)
    (h.not_node (z := a.addr + QUEUESZ) hmem hnf (by omega) (by omega))
    (h.not_node hmem hnf (by omega) (by omega))
  have e : appendFreeArea cfg m a.addr = queInit (a.addr + QUEUESZ + QUEUESZ)
      (if searchFreeArea cfg m (sizeAt m (a.addr + QUEUESZ)) ≠ cfg.freeque ∧
          freeSize cfg m (searchFreeArea cfg m (sizeAt m (a.addr + QUEUESZ))) =
          sizeAt m (a.addr + QUEUESZ) then
        queInsert (a.addr + QUEUESZ) (searchFreeArea cfg m (sizeAt m (a.addr + QUEUESZ)) + QUEUESZ)
        m
      else queInsert (a.addr + QUEUESZ) (searchFreeArea cfg m (sizeAt m (a.addr + QUEUESZ)))
        m) := by
    unfold appendFreeArea
    rw [h.areaSize_eq ok hmem, h.clr_loose ok (by rw [ha]; decide), hsz]
    rfl
  rw [e]
  refine ⟨⟨G', h.requeue (by rw [ha]; decide) (by decide) ?_ hb ?_ ?_⟩, fun z hz => ?_, hm⟩
  · intro z hz
    refine hm z (fun hc => h.node_not_cell ok hc hz) ?_ ?_
    · rintro rfl
      have hin := h.inside hmem (x := a.addr + QUEUESZ) (by omega) (by omega)
      exact (List.mem_cons.mp hz).elim hin.1 hin.2.2
    · rintro rfl
      have hin := h.inside hmem (x := a.addr + QUEUESZ + QUEUESZ) (by omega) (by omega)
      exact (List.mem_cons.mp hz).elim hin.1 hin.2.2
  · intro x hx
    rcases List.mem_cons.mp (hp.subset hx) with rfl | hx
    · exact ⟨a, hmem, rfl⟩
    · obtain ⟨a', ha', -, e⟩ := h.mem_members.mp hx
      exact ⟨a', ha', e⟩
  · have hone := @freeCells_fill_free { a with st := .free } a c rfl hnf
    exact hp.trans ((h.free.cons _).trans hone.symm)
  · -- the area of the owner is another one
    have hnode := (h.owned hz).2
    obtain ⟨b, hb, hu, h₁, h₂⟩ := hz
    have hother : z ≠ a.addr + QUEUESZ ∧ z ≠ a.addr + QUEUESZ + QUEUESZ := by
      rcases h.area_eq_or_apart hb hmem with rfl | hab | hab
      · rw [ha] at hu
        cases hu
      · omega
      · omega
    exact hm z hnode hother.1 hother.2

/-- **Search.** A free area that is large enough, unless there is none. -/
theorem Heap.search {B : List Block} (h : Heap cfg t m B G) (ok : CfgOk cfg t) (blksz : ℤ) :
    (searchFreeArea cfg m blksz = cfg.freeque ∧ ∀ a ∈ areasOf B, a.st = .free →
      (a.size : ℤ) < blksz) ∨
      (searchFreeArea cfg m blksz ≠ cfg.freeque ∧
        ∃ a ∈ areasOf B, a.st = .free ∧ searchFreeArea cfg m blksz = a.addr + QUEUESZ ∧
          blksz ≤ a.size) := by
  obtain ⟨A, C, rfl, hA, hC, hres⟩ := searchFreeArea_eq blksz (h.freeOrder ok) (h.sizes_exact ok)
  cases C with
  | nil =>
    refine Or.inl ⟨hres, fun a ha hf => ?_⟩
    -- every free area has the size of the leader of its bucket
    obtain ⟨g, hg, hx⟩ := mem_nodes.mp (h.mem_members.mpr ⟨a, ha, hf, rfl⟩)
    have hsz : sizeAt m (a.addr + QUEUESZ) = sizeAt m g.1 := by
      rcases List.mem_cons.mp hx with e | hx
      · rw [e]
      · exact h.buckets.same g hg _ hx
    rw [h.sizeAt_eq ha] at hsz
    rw [hsz]
    exact hA g (by rwa [List.append_nil] at hg)
  | cons g C =>
    have hg : g.1 ∈ members (A ++ g :: C) :=
      mem_nodes.mpr ⟨g, List.mem_append_right A List.mem_cons_self, List.mem_cons_self⟩
    obtain ⟨a, ha, hf, e⟩ := h.mem_members.mp hg
    have hres : searchFreeArea cfg m blksz = g.1 := hres
    refine Or.inr ⟨?_, a, ha, hf, hres.trans e, ?_⟩
    · rw [hres]
      intro c
      exact (List.nodup_cons.mp h.buckets.rings.head.nodup).1
        (List.mem_map.mpr ⟨g, List.mem_append_right A List.mem_cons_self, c⟩)
    · have := hC g List.mem_cons_self
      rwa [e, h.sizeAt_eq ha] at this

/-! ## Cutting and joining -/

theorem Heap.ring_fill (h : Heap cfg t m (c.fill [a]) G) :
    IsRing (untag cfg.bits m) cfg.areaque ((cellsOf c.before ++ c.left.map Area.addr) ++ a.addr ::
      (c.right.map Area.addr ++ c.fin :: cellsOf c.after)) := by
  have r := h.ring
  rwa [cellsOf_fill, List.map_singleton, List.append_assoc, List.singleton_append] at r

/-- An area that is not free is cut in two. -/
theorem Heap.split (h : Heap cfg t m (c.fill [a]) G) (ok : CfgOk cfg t) (ha : a.st ≠ .free)
    {s r : ℕ} (hs : a.size = s + QUEUESZ + r) (hs₁ : MIN_FRAGMENT ≤ s ∧ QUEUESZ ∣ s)
    (hr₁ : MIN_FRAGMENT ≤ r ∧ QUEUESZ ∣ r) :
    Heap cfg t (insertAreaQue cfg m a.addr (a.addr + QUEUESZ + s))
      (c.fill [⟨a.addr, s, a.st⟩, ⟨a.addr + QUEUESZ + s, r, .loose⟩]) G ∧
      ∀ z, Owned (areasOf (c.fill [⟨a.addr, s, a.st⟩, ⟨a.addr + QUEUESZ + s, r, .loose⟩])) z →
        insertAreaQue cfg m a.addr (a.addr + QUEUESZ + s) z = m z := by
  have hmem : a ∈ areasOf (c.fill [a]) := mem_fill (List.mem_singleton.mpr rfl)
  have hcell : a.addr ∈ cellsOf (c.fill [a]) := cell_fill (List.mem_singleton.mpr rfl)
  have hq : QUEUESZ = 8 := rfl
  have hmf : MIN_FRAGMENT = 16 := rfl
  set ent := a.addr + QUEUESZ + s with hent
  have hin := h.inside hmem (x := ent) (by omega) (by omega)
  have hout : ent ∉ cfg.areaque :: cellsOf (c.fill [a]) :=
    fun hc => (List.mem_cons.mp hc).elim hin.1 hin.2.2
  have hne : ent ≠ a.addr := fun e => hout (e ▸ List.mem_cons_of_mem _ hcell)
  have hnx : ent ≠ (m a.addr).next := fun e => hout (e ▸ (h.prev_mem hcell).2)
  have hque := (h.cell_aligned ok (List.mem_cons_of_mem _ hcell)).1
  have hdvd : 2 ^ cfg.bits ∣ ent := by
    have h8 : 2 ^ cfg.bits ∣ 8 := Nat.pow_dvd_pow 2 ok.bits
    have hs8 : 8 ∣ QUEUESZ + s := Nat.dvd_add (dvd_refl 8) hs₁.2
    rw [hent, Nat.add_assoc]
    exact Nat.dvd_add hque (h8.trans hs8)
  have r₀ := h.ring_fill
  rw [← List.singleton_append, ← List.append_assoc] at r₀
  set v := c.right.map Area.addr ++ c.fin :: cellsOf c.after
  have hlink := r₀.linked
  rw [List.getLastD_concat] at hlink
  have hhd : (m a.addr).next = v.headD cfg.areaque := hlink.1
  have hp : (untag cfg.bits m (m a.addr).next).prev = a.addr := by
    rw [hhd]
    exact hlink.2
  have hcells : (cellsOf c.before ++ c.left.map Area.addr ++ [a.addr]) ++ v =
      cellsOf (c.fill [a]) := by
    rw [cellsOf_fill]
    rfl
  have htag (z : ℕ) := tagAt_insertAreaQue hque hdvd hne hnx z
  have hframe (z : ℕ) (h₁ : z ∉ cfg.areaque :: cellsOf (c.fill [a])) (h₂ : z ≠ ent) :
      insertAreaQue cfg m a.addr ent z = m z :=
    insertAreaQue_frame hne hnx (fun e => h₁ (e ▸ List.mem_cons_of_mem _ hcell)) h₂
      (fun e => h₁ (e ▸ (h.prev_mem hcell).2))
  have hb := (h.tiles_fill.bounds (a := a)
    (List.mem_append_left _ (List.mem_append_right _ (List.mem_singleton.mpr rfl)))).1
  have hheap :
      Heap cfg t (insertAreaQue cfg m a.addr ent) (c.fill [⟨a.addr, s, a.st⟩, ⟨ent, r, .loose⟩])
      G := by
    refine h.edit ?_ ?_ ?_ ?_ ?_ (h.buckets_congr ?_ ?_) ?_
    · have ht := h.tiles_fill
      rw [List.append_assoc, List.singleton_append] at ht
      rw [List.append_assoc]
      exact ht.split hs a.st .loose
    · intro a' ha'
      rcases List.mem_cons.mp ha' with rfl | ha'
      · exact hs₁
      · rw [List.mem_singleton.mp ha']
        exact hr₁
    · rw [untag_insertAreaQue hque hdvd hne hnx hp, hhd]
      have hr' := r₀.insertBefore (e := ent) (by rwa [hcells])
      rw [cellsOf_fill]
      simp only [List.map_cons, List.map_nil, List.append_assoc, List.cons_append,
        List.nil_append] at hr' ⊢
      exact hr'
    · intro a' ha'
      rcases List.mem_cons.mp ha' with rfl | ha'
      · rw [htag, if_neg hne.symm, h.tag_fill]
        rfl
      · rw [List.mem_singleton.mp ha', htag, if_pos rfl]
        unfold areaTag
        rw [if_neg (by omega : ent ≠ c.base)]
        rfl
    · intro z hz _
      rw [htag, if_neg (ne_of_mem_of_not_mem hz hout)]
    · intro z hz
      exact hframe z (h.node_not_cell ok hz)
        (ne_of_mem_of_not_mem hz (h.not_node hmem ha (by omega) (by omega)))
    · intro a' ha' hf
      rw [insertAreaQue_next hne, if_neg, if_neg]
      · intro e
        exact hin.2.2 (e ▸ (mem_cellsOf.mpr (by
          obtain ⟨b, hb, hab⟩ := mem_areasOf.mp ha'
          exact ⟨b, hb, Or.inr ⟨a', hab, rfl⟩⟩)))
      · intro e
        have := h.area_eq ha' hmem (d := 0) (f := 0) (by omega) (by omega) (by rw [e])
        exact ha (this ▸ hf)
    · refine h.free.trans (List.Perm.of_eq (freeCells_fill_congr ?_))
      simp [ha]
  refine ⟨hheap, fun z hz => hframe z (fun hc => (hheap.owned hz).1 ?_) ?_⟩
  · rw [cellsOf_fill] at hc ⊢
    simp only [List.mem_cons, List.mem_append, List.map_cons, List.map_nil] at hc ⊢
    tauto
  · exact hheap.owned_ne (List.mem_cons_of_mem _ List.mem_cons_self) hz

/-- An area that is not free takes in its loose neighbour. -/
theorem Heap.join (h : Heap cfg t m (c.fill [a, n]) G) (ok : CfgOk cfg t) (ha : a.st ≠ .free)
    (hn : n.st = .loose) :
    Heap cfg t (removeAreaQue cfg m n.addr) (c.fill [⟨a.addr, a.size + QUEUESZ + n.size, a.st⟩]) G ∧
      (∀ z, Owned (areasOf (c.fill [a, n])) z → removeAreaQue cfg m n.addr z = m z) ∧
      ∀ z, tagAt cfg.bits (removeAreaQue cfg m n.addr) z = tagAt cfg.bits m z := by
  have hamem : a ∈ areasOf (c.fill [a, n]) := mem_fill List.mem_cons_self
  have hnmem : n ∈ areasOf (c.fill [a, n]) := mem_fill (List.mem_cons_of_mem _ List.mem_cons_self)
  have hcell : n.addr ∈ cellsOf (c.fill [a, n]) :=
    cell_fill (List.mem_cons_of_mem _ List.mem_cons_self)
  have hq : QUEUESZ = 8 := rfl
  have hmf : MIN_FRAGMENT = 16 := rfl
  have hsa := h.sizes a hamem
  have hsn := h.sizes n hnmem
  have hnext : n.addr = a.addr + QUEUESZ + a.size := by
    have ht := h.tiles_fill
    rw [List.append_assoc] at ht
    exact ht.next
  set u := cellsOf c.before ++ c.left.map Area.addr
  set v := c.right.map Area.addr ++ c.fin :: cellsOf c.after
  have r₀ : IsRing (untag cfg.bits m) cfg.areaque ((u ++ [a.addr]) ++ n.addr :: v) := by
    have r := h.ring
    have e : u ++ [a, n].map Area.addr ++ v = (u ++ [a.addr]) ++ n.addr :: v := by simp
    rwa [cellsOf_fill, e] at r
  have hprev : (untag cfg.bits m n.addr).prev = a.addr := by
    rw [r₀.prev_mid, List.getLastD_concat]
  have hnx : (m n.addr).next ≠ n.addr := by
    have := h.next hnmem
    omega
  have hp : (untag cfg.bits m n.addr).prev ≠ n.addr := by
    rw [hprev]
    omega
  have hlt := h.prev_lt ok hcell
  have hacell : a.addr ∈ cellsOf (c.fill [a, n]) := cell_fill List.mem_cons_self
  have hframe (z : ℕ) (hz : z ∉ cfg.areaque :: cellsOf (c.fill [a, n])) :
      removeAreaQue cfg m n.addr z = m z := by
    refine removeAreaQue_frame hlt hp ?_ ?_
    · rw [hprev]
      exact fun e => hz (e ▸ List.mem_cons_of_mem _ hacell)
    · exact fun e => hz (e ▸ (h.prev_mem hcell).2)
  refine ⟨h.edit ?_ ?_ ?_ ?_ ?_ (h.buckets_congr ?_ ?_) ?_, fun z hz => hframe z (h.owned hz).1,
    tagAt_removeAreaQue hlt hp⟩
  · have ht := h.tiles_fill
    rw [List.append_assoc] at ht ⊢
    exact ht.join a.st
  · intro a' ha'
    rw [List.mem_singleton.mp ha']
    refine ⟨by show _ ≤ a.size + _ + _; omega, ?_⟩
    exact Nat.dvd_add (Nat.dvd_add hsa.2 (dvd_refl _)) hsn.2
  · rw [untag_removeAreaQue hlt hnx hp, cellsOf_fill]
    exact r₀.unlink
  · intro a' ha'
    rw [List.mem_singleton.mp ha', tagAt_removeAreaQue hlt hp]
    exact h.tag _ block_mem_fill a (List.mem_append_left _
      (List.mem_append_right _ List.mem_cons_self))
  · exact fun z _ _ => tagAt_removeAreaQue hlt hp z
  · exact fun z hz => hframe z (h.node_not_cell ok hz)
  · intro a' ha' hf
    rw [removeAreaQue_next hlt, hprev, if_neg]
    intro e
    have := h.area_eq ha' hamem (d := 0) (f := 0) (by omega) (by omega) (by rw [e])
    exact ha (this ▸ hf)
  · refine h.free.trans (List.Perm.of_eq (freeCells_fill_congr ?_))
    simp [ha, hn]

/-! ## Allocation -/

/-- **Allocation** from an area that is not free: it is put in use, and what is left over is
free. -/
theorem Heap.alloc (h : Heap cfg t m (c.fill [a]) G) (ok : CfgOk cfg t) (ha : a.st ≠ .free)
    {blksz : ℤ} (h16 : (MIN_FRAGMENT : ℤ) ≤ blksz) (hdvd : (QUEUESZ : ℤ) ∣ blksz)
    (hle : blksz ≤ a.size) :
    ∃ s rest G', (memAlloc cfg m a.addr blksz).1 = a.addr + QUEUESZ ∧
      Heap cfg t (memAlloc cfg m a.addr blksz).2 (c.fill (⟨a.addr, s, .used⟩ :: rest)) G' ∧
      blksz ≤ s ∧
      (s = a.size ∧ rest = [] ∧ (a.size : ℤ) < blksz + (MIN_FRAGMENT + QUEUESZ) ∨
        ∃ r, a.size = s + QUEUESZ + r ∧ rest = [⟨a.addr + QUEUESZ + s, r, .free⟩] ∧ s = blksz) ∧
      ∀ z, Owned (areasOf (c.fill [⟨a.addr, s, a.st⟩])) z →
        (memAlloc cfg m a.addr blksz).2 z = m z := by
  have hmem : a ∈ areasOf (c.fill [a]) := mem_fill (List.mem_singleton.mpr rfl)
  have hq : QUEUESZ = 8 := rfl
  have hmf : MIN_FRAGMENT = 16 := rfl
  obtain ⟨s, rfl⟩ := Int.eq_ofNat_of_zero_le (by omega : 0 ≤ blksz)
  have hlt := h.area_lt hmem
  have hsa := h.sizes a hmem
  have hdvd' : QUEUESZ ∣ s := Int.natCast_dvd_natCast.mp hdvd
  have hrest : (a.size : ℤ) - (s : ℕ) = ((a.size - s : ℕ) : ℤ) := by omega
  have hu : UINT (areaSize cfg m a.addr - (s : ℤ)) = a.size - s := by
    rw [h.areaSize_eq ok hmem, hrest]
    exact UINT_natCast (by omega)
  have hset (m' : Mem) {z : ℕ} (hz : z ≠ a.addr) : setAreaFlag m' a.addr AREA_USE z = m' z := by
    unfold setAreaFlag
    rw [setPrev_apply, if_neg hz]
  unfold memAlloc
  by_cases hsplit : UINT (areaSize cfg m a.addr - (s : ℤ)) ≥ MIN_FRAGMENT + QUEUESZ
  · -- the rest becomes an area of its own
    have hq' : UINT (((a.addr : ℤ) + QUEUESZ : ℤ) + (s : ℤ)) = a.addr + QUEUESZ + s := by
      have hfit : a.addr + QUEUESZ + s < 2 ^ 32 := by omega
      exact_mod_cast UINT_natCast hfit
    rw [if_pos hsplit, hq']
    rw [hu] at hsplit
    have hr : a.size = s + QUEUESZ + (a.size - s - QUEUESZ) := by omega
    have h8 : 8 ∣ a.size - s - 8 := by
      have h₁ : 8 ∣ a.size := hsa.2
      have h₂ : 8 ∣ s := hdvd'
      omega
    obtain ⟨h₁, hframe₁⟩ := h.split ok ha hr ⟨by omega, hdvd'⟩ ⟨by omega, h8⟩
    have hwider (z : ℕ) (hz : Owned (areasOf (c.fill [⟨a.addr, s, a.st⟩])) z) :
        Owned (areasOf (c.fill [⟨a.addr, s, a.st⟩, ⟨a.addr + QUEUESZ + s, a.size - s - QUEUESZ,
          .loose⟩])) z := by
      refine hz.mono fun b hb _ => ?_
      rw [areasOf_fill] at hb ⊢
      simp only [List.mem_append, List.mem_cons, List.not_mem_nil, or_false] at hb ⊢
      tauto
    have hne (z : ℕ) (hz : Owned (areasOf (c.fill [⟨a.addr, s, a.st⟩])) z) : z ≠ a.addr := by
      have hfirst : (⟨a.addr, s, a.st⟩ : HeapArea) ∈
          [⟨a.addr, s, a.st⟩, ⟨a.addr + QUEUESZ + s, a.size - s - QUEUESZ, .loose⟩] :=
            List.mem_cons_self
      have hout := h₁.owned_ne hfirst (hwider z hz)
      exact hout
    -- register the second part
    rw [fill_snd] at h₁
    obtain ⟨⟨G', h₂⟩, hframe₂, -⟩ := h₁.put ok rfl
    rw [← fill_snd, fill_fst] at h₂
    -- put the first part in use
    have h₃ := h₂.setUsed ok ha
    rw [← fill_fst] at h₃
    refine ⟨s, _, G', rfl, h₃, le_rfl, Or.inr ⟨_, hr, rfl, rfl⟩, fun z hz => ?_⟩
    show setAreaFlag (appendFreeArea cfg (insertAreaQue cfg m a.addr (a.addr + QUEUESZ + s))
      (a.addr + QUEUESZ + s)) a.addr AREA_USE z = m z
    rw [hset _ (hne z hz), hframe₂ z (by rw [← fill_snd]; exact hwider z hz),
      hframe₁ z (hwider z hz)]
  · rw [if_neg hsplit]
    rw [hu] at hsplit
    exact ⟨a.size, [], G, rfl, h.setUsed ok ha, by omega, Or.inl ⟨rfl, rfl, by omega⟩,
      fun z hz => hset _ (h.owned_ne (List.mem_singleton.mpr rfl) hz)⟩

/-! ## Coalescing -/

theorem owned_setState_snd {st : AreaState} (hn : n.st = .free)
    (hz : Owned (areasOf (c.fill [a, n])) z) :
    Owned (areasOf (c.fill [a, { n with st := st }])) z := by
  refine hz.mono fun b hb hu => ?_
  rw [areasOf_fill] at hb ⊢
  simp only [List.mem_append, List.mem_cons, List.not_mem_nil, or_false] at hb ⊢
  rcases hb with (hb | rfl | rfl) | hb
  · exact Or.inl (Or.inl hb)
  · exact Or.inl (Or.inr (Or.inl rfl))
  · rw [hn] at hu
    cases hu
  · exact Or.inr hb

theorem owned_setState_fst {st : AreaState} (ha : a.st = .free)
    (hz : Owned (areasOf (c.fill [a, n])) z) :
    Owned (areasOf (c.fill [{ a with st := st }, n])) z := by
  refine hz.mono fun b hb hu => ?_
  rw [areasOf_fill] at hb ⊢
  simp only [List.mem_append, List.mem_cons, List.not_mem_nil, or_false] at hb ⊢
  rcases hb with (hb | rfl | rfl) | hb
  · exact Or.inl (Or.inl hb)
  · rw [ha] at hu
    cases hu
  · exact Or.inl (Or.inr (Or.inr rfl))
  · exact Or.inr hb

/-- The next area is free: it leaves `freeque` and is joined. -/
theorem Heap.joinNext (h : Heap cfg t m (c.fill [a]) G) (ok : CfgOk cfg t) (ha : a.st ≠ .free)
    {l : List HeapArea} (hr : c.right = n :: l) (hn : n.st = .free) :
    let m' := removeFreeQue m ((m a.addr).next + QUEUESZ)
    (∃ G', Heap cfg t (removeAreaQue cfg m' (m' a.addr).next)
      (({ c with right := l }).fill [⟨a.addr, a.size + QUEUESZ + n.size, a.st⟩]) G') ∧
      (∀ z, Owned (areasOf (c.fill [a])) z → removeAreaQue cfg m' (m' a.addr).next z = m z) ∧
      ∀ z, z ∉ nodes (queueRings (· + QUEUESZ) cfg.freeque G) →
        tagAt cfg.bits (removeAreaQue cfg m' (m' a.addr).next) z = tagAt cfg.bits m z := by
  intro m'
  rw [fill_next hr] at h
  have hnext : (m a.addr).next = n.addr := by
    have ht := h.tiles_fill
    rw [List.append_assoc] at ht
    rw [h.next (mem_fill List.mem_cons_self)]
    exact ht.next.symm
  have h' := h
  rw [fill_snd] at h'
  obtain ⟨G', h₁⟩ := h'.take ok hn
  rw [← fill_snd] at h₁
  have hm' : m' = removeFreeQue m (n.addr + QUEUESZ) := by rw [← hnext]
  have hnext' : (m' a.addr).next = n.addr := by
    rw [hm', h₁.next (mem_fill List.mem_cons_self), ← h.next (mem_fill List.mem_cons_self), hnext]
  obtain ⟨h₂, hframe, htag⟩ := h₁.join ok ha rfl
  rw [hnext', hm', fill_next hr]
  refine ⟨⟨G', h₂⟩, fun z hz => ?_, fun z hz =>
    (htag z).trans (tagAt_eq_of_eq (h'.take_frame hn hz))⟩
  rw [hframe z (owned_setState_snd hn hz)]
  exact h'.take_frame hn (h.owned hz).2

/-- The previous area is free: it leaves `freeque` and takes in the next. -/
theorem Heap.joinPrev (h : Heap cfg t m (c.fill [n]) G) (ok : CfgOk cfg t) (hn : n.st = .loose)
    {l : List HeapArea} (hl : c.left = l ++ [a]) (ha : a.st = .free) :
    let m' := removeFreeQue m (a.addr + QUEUESZ)
    (∃ G', Heap cfg t (removeAreaQue cfg m' (m' a.addr).next)
      (({ c with left := l }).fill [⟨a.addr, a.size + QUEUESZ + n.size, .loose⟩]) G') ∧
      (∀ z, Owned (areasOf (c.fill [n])) z → removeAreaQue cfg m' (m' a.addr).next z = m z) ∧
      ∀ z, z ∉ nodes (queueRings (· + QUEUESZ) cfg.freeque G) →
        tagAt cfg.bits (removeAreaQue cfg m' (m' a.addr).next) z = tagAt cfg.bits m z := by
  intro m'
  rw [fill_prev hl] at h
  have h' := h
  rw [fill_fst] at h'
  obtain ⟨G', h₁⟩ := h'.take ok ha
  rw [← fill_fst] at h₁
  have hnext' : (m' a.addr).next = n.addr := by
    have ht := h.tiles_fill
    rw [List.append_assoc] at ht
    rw [h₁.next (mem_fill List.mem_cons_self)]
    exact ht.next.symm
  obtain ⟨h₂, hframe, htag⟩ := h₁.join ok (nofun : AreaState.loose ≠ .free) hn
  rw [hnext', fill_prev hl]
  refine ⟨⟨G', h₂⟩, fun z hz => ?_, fun z hz =>
    (htag z).trans (tagAt_eq_of_eq (h'.take_frame ha hz))⟩
  rw [hframe z (owned_setState_fst ha hz)]
  exact h'.take_frame ha (h.owned hz).2

/-- The previous cell of an area that is not the first of its block. -/
theorem Heap.prev_left (h : Heap cfg t m (c.fill [n]) G) {l : List HeapArea}
    (hl : c.left = l ++ [a]) :
    (untag cfg.bits m n.addr).prev = a.addr := by
  have r := h.ring_fill
  rw [hl, List.map_append, ← List.append_assoc] at r
  rw [r.prev_mid, List.map_singleton, List.getLastD_concat]

/-- The areas behind the first have no flag but that of use. -/
theorem Heap.tag_right (h : Heap cfg t m (c.fill mid) G) (ha : a ∈ c.right) (hne : mid ≠ []) :
    tagAt cfg.bits m a.addr = if a.st = .used then AREA_USE else 0 := by
  rw [h.tag _ block_mem_fill a (List.mem_append_right _ ha)]
  unfold areaTag
  rw [if_neg]
  · exact Nat.zero_add _
  · obtain ⟨x, l, rfl⟩ := List.exists_cons_of_ne_nil hne
    have ht := h.tiles_fill
    rw [List.append_assoc, List.cons_append] at ht
    have hx := (ht.bounds (List.mem_append_right _ List.mem_cons_self)).1
    obtain ⟨l₁, l₂, e⟩ := List.append_of_mem ha
    have hb := ((tiles_middle.mp ht).2.bounds (List.mem_append_right _ ha)).1
    have hq : QUEUESZ = 8 := rfl
    show a.addr ≠ c.base
    omega

theorem chkAreaFlag_eq {f : ℕ} (hf : f < 2 ^ cfg.bits) :
    chkAreaFlag m x f = decide (tagAt cfg.bits m x &&& f ≠ 0) := by
  unfold chkAreaFlag tagAt
  rw [and_low hf]

/-- The next area can be merged exactly if it is not in use. -/
theorem Heap.chk_next (h : Heap cfg t m (c.fill [a]) G) {f : ℕ} (hf : f < 2 ^ cfg.bits)
    (huse : AREA_USE &&& f ≠ 0) (hfin : t.fin &&& f ≠ 0) :
    chkAreaFlag m (m a.addr).next f = false ↔ ∃ n l, c.right = n :: l ∧ n.st ≠ .used := by
  have r := h.ring_fill
  have hn : (m a.addr).next = _ := r.next_mid
  rw [chkAreaFlag_eq hf, decide_eq_false_iff_not, not_not, hn]
  rcases hr : c.right with _ | ⟨n, l⟩
  · refine iff_of_false ?_ (by rintro ⟨n, l, e, -⟩; cases e)
    show ¬tagAt cfg.bits m c.fin &&& f = 0
    rw [h.finTag _ (@block_mem_fill c [a])]
    exact hfin
  · have htag := h.tag_right (a := n) (hr ▸ List.mem_cons_self) (List.cons_ne_nil a [])
    show tagAt cfg.bits m n.addr &&& f = 0 ↔ _
    rw [htag]
    by_cases hu : n.st = .used
    · rw [if_pos hu]
      refine iff_of_false huse ?_
      rintro ⟨n', l', e, hn'⟩
      cases e
      exact hn' hu
    · rw [if_neg hu]
      exact iff_of_true (Nat.zero_and f) ⟨n, l, rfl, hu⟩

/-- Every area is free or in use, and no two neighbours are free. -/
structure Quiet (l : List HeapArea) : Prop where
  settled : ∀ a ∈ l, a.st ≠ .loose
  chain : l.IsChain fun a b => ¬(a.st = .free ∧ b.st = .free)

/-- The first area, if there is one, is in use. -/
def UsedFirst (l : List HeapArea) : Prop := ∀ a ∈ l.head?, a.st = .used

/-- The last area, if there is one, is in use. -/
def UsedLast (l : List HeapArea) : Prop := ∀ a ∈ l.getLast?, a.st = .used

theorem Quiet.parts {l r : List HeapArea} (q : Quiet (l ++ a :: r)) :
    Quiet l ∧ Quiet r ∧ (a.st = .free → UsedLast l ∧ UsedFirst r) := by
  have hc := List.isChain_append.mp q.chain
  have hr := List.isChain_cons.mp hc.2.1
  have settled (x : HeapArea) (hx : x ∈ l ++ a :: r) (hf : x.st ≠ .free) : x.st = .used := by
    have := q.settled x hx
    cases hst : x.st with
    | free => exact absurd hst hf
    | loose => exact absurd hst this
    | used => rfl
  refine ⟨⟨fun x hx => q.settled x (List.mem_append_left _ hx), hc.1⟩,
    ⟨fun x hx => q.settled x (List.mem_append_right _ (List.mem_cons_of_mem _ hx)), hr.2⟩,
    fun ha => ⟨fun x hx => ?_, fun x hx => ?_⟩⟩
  · exact settled x (List.mem_append_left _ (List.mem_of_getLast? hx))
      fun hf => hc.2.2 x hx a rfl ⟨hf, ha⟩
  · exact settled x (List.mem_append_right _ (List.mem_cons_of_mem _ (List.mem_of_head? hx)))
      fun hf => hr.1 x hx ⟨ha, hf⟩

theorem Quiet.insert {l r : List HeapArea} (hl : Quiet l) (hr : Quiet r) (hmid : a.st ≠ .loose)
    (h : a.st = .used ∨ UsedLast l ∧ UsedFirst r) : Quiet (l ++ a :: r) := by
  refine ⟨fun x hx => ?_, List.isChain_append.mpr ⟨hl.chain, List.isChain_cons.mpr ⟨?_, hr.chain⟩,
    ?_⟩⟩
  · rcases List.mem_append.mp hx with hx | hx
    · exact hl.settled x hx
    · rcases List.mem_cons.mp hx with rfl | hx
      · exact hmid
      · exact hr.settled x hx
  · rintro x hx ⟨ha, hf⟩
    rcases h with h | h
    · rw [h] at ha
      cases ha
    · rw [h.2 x hx] at hf
      cases hf
  · rintro x hx y hy ⟨hf, ha⟩
    cases hy
    rcases h with h | h
    · rw [h] at ha
      cases ha
    · rw [h.1 x hx] at hf
      cases hf

/-- **Merging with the next area.** Afterwards the area behind is in use. -/
theorem Heap.mergeNext_eq (h : Heap cfg t m (c.fill [a]) G) (ok : CfgOk cfg t) (ha : a.st ≠ .free)
    (hr : Quiet c.right) {f : ℕ} (hf : f < 2 ^ cfg.bits) (huse : AREA_USE &&& f ≠ 0)
    (hfin : t.fin &&& f ≠ 0) :
    ∃ r s G', Heap cfg t (mergeNext cfg m a.addr f) (({ c with right := r }).fill
      [⟨a.addr, s, a.st⟩]) G' ∧
      Quiet r ∧ UsedFirst r ∧
      (r = c.right ∧ s = a.size ∨ ∃ n, c.right = n :: r ∧ n.st = .free ∧
        s = a.size + QUEUESZ + n.size) ∧
      (∀ z, Owned (areasOf (c.fill [a])) z → mergeNext cfg m a.addr f z = m z) ∧
      ∀ z, z ∉ nodes (queueRings (· + QUEUESZ) cfg.freeque G) →
        tagAt cfg.bits (mergeNext cfg m a.addr f) z = tagAt cfg.bits m z := by
  unfold mergeNext
  by_cases hchk : chkAreaFlag m (m a.addr).next f = false
  · obtain ⟨n, l, hl, hn⟩ := (h.chk_next hf huse hfin).mp hchk
    rw [hl] at hr
    have hn : n.st = .free := by
      have := hr.settled n List.mem_cons_self
      cases hst : n.st with
      | free => rfl
      | loose => exact absurd hst this
      | used => exact absurd hst hn
    obtain ⟨-, hql, hu⟩ := Quiet.parts (l := []) hr
    obtain ⟨⟨G', h'⟩, hframe, htag⟩ := h.joinNext ok ha hl hn
    rw [hchk, if_pos (by rfl)]
    exact ⟨l, _, G', h', hql, (hu hn).2, Or.inr ⟨n, hl, hn, rfl⟩, hframe, htag⟩
  · rw [Bool.eq_false_iff.not_left.mp hchk, if_neg (by decide)]
    refine ⟨c.right, a.size, G, h, hr, fun n hn => ?_, Or.inl ⟨rfl, rfl⟩, fun _ _ =>
      rfl, fun _ _ => rfl⟩
    obtain ⟨l, hl⟩ := List.head?_eq_some_iff.mp hn
    by_contra hu
    exact hchk ((h.chk_next hf huse hfin).mpr ⟨n, l, hl, hu⟩)

/-- **Merging with the previous area.** Afterwards the area in front is in use. The flags of the
first area or of what lies before it stop the merging at the border of the block. -/
theorem Heap.mergePrev_eq (h : Heap cfg t m (c.fill [a]) G) (ok : CfgOk cfg t) (ha : a.st = .loose)
    (hl : Quiet c.left) {top : ℕ} (htop : top < 2 ^ cfg.bits)
    (hstop : c.left = [] →
      chkAreaFlag m a.addr top = true ∨ chkAreaFlag m (m a.addr).prev AREA_USE = true) :
    ∃ l x G', (mergePrev cfg m a.addr top).1 = x.addr ∧ x.st = .loose ∧
      Heap cfg t (mergePrev cfg m a.addr top).2 (({ c with left := l }).fill [x]) G' ∧
      Quiet l ∧ UsedLast l ∧
      (l = c.left ∧ x = a ∨
        ∃ n, c.left = l ++ [n] ∧ n.st = .free ∧ x = ⟨n.addr, n.size + QUEUESZ + a.size, .loose⟩) ∧
      (∀ z, Owned (areasOf (c.fill [a])) z → (mergePrev cfg m a.addr top).2 z = m z) ∧
      ∀ z, z ∉ nodes (queueRings (· + QUEUESZ) cfg.freeque G) →
        tagAt cfg.bits (mergePrev cfg m a.addr top).2 z = tagAt cfg.bits m z := by
  have h1 : AREA_USE < 2 ^ cfg.bits := Nat.one_lt_two_pow ok.bits_pos.ne'
  unfold mergePrev
  rcases List.eq_nil_or_concat' c.left with hnil | ⟨l, n, hn⟩
  · rw [if_neg]
    · refine ⟨c.left, a, G, rfl, ha, h, hl, ?_, Or.inl ⟨rfl, rfl⟩, fun _ _ => rfl, fun _ _ => rfl⟩
      rw [hnil]
      exact fun x hx => absurd hx (by simp)
    · rcases hstop hnil with e | e <;> simp [e]
  · -- inside the block the flags say whether the previous area is in use
    have h' := h
    rw [fill_prev hn] at h'
    have htag : tagAt cfg.bits m a.addr = 0 := by
      have h'' := h'
      rw [fill_fst] at h''
      rw [h''.tag_right List.mem_cons_self (List.cons_ne_nil n []), ha]
      rfl
    have hprev : (m a.addr).prev = n.addr := by
      rw [prev_eq cfg.bits, htag, h.prev_left hn, Nat.add_zero]
    have hntag : tagAt cfg.bits m n.addr &&& AREA_USE = if n.st = .used then AREA_USE else 0 := by
      have h'' := h'
      rw [fill_fst] at h''
      rw [h''.tag_fill]
      unfold areaTag
      have h2 := ok.top_even
      show _ &&& 1 = if _ then 1 else 0
      rw [Nat.and_one_is_mod]
      have hu : AREA_USE = 1 := rfl
      split_ifs <;> omega
    rw [chkAreaFlag_eq htop, htag, hprev, chkAreaFlag_eq h1, hntag, Nat.zero_and]
    by_cases hu : n.st = .used
    · rw [if_pos hu, if_neg (by decide)]
      refine ⟨c.left, a, G, rfl, ha, h, hl, ?_, Or.inl ⟨rfl, rfl⟩, fun _ _ => rfl, fun _ _ => rfl⟩
      rw [hn]
      intro x hx
      rw [List.getLast?_concat] at hx
      cases hx
      exact hu
    · rw [if_neg hu, if_pos (by decide)]
      rw [hn] at hl
      have hfree : n.st = .free := by
        have := hl.settled n (List.mem_append_right _ (List.mem_singleton.mpr rfl))
        cases hst : n.st with
        | free => rfl
        | loose => exact absurd hst this
        | used => exact absurd hst hu
      obtain ⟨hql, -, hq⟩ := Quiet.parts hl
      obtain ⟨⟨G', h''⟩, hframe, htag⟩ := h.joinPrev ok ha hn hfree
      exact ⟨l, ⟨n.addr, n.size + QUEUESZ + a.size, .loose⟩, G', rfl, rfl, h'', hql, (hq hfree).1,
        Or.inr ⟨n, hn, hfree, rfl⟩, hframe, htag⟩

end SmpTKernel
