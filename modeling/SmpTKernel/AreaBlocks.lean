import SmpTKernel.AreaMoves

/-!
# Blocks come and go

A new block is linked in at the front of `areaque` as one loose area and its end marker; a block
that is one loose area again is taken out.
-/

namespace SmpTKernel

open LinkRing Words Tiling

variable {cfg : AreaCfg} {t t' : BlockTags} {m m' : Mem} {B B₁ B₂ : List Block}
  {G : List (ℕ × List ℕ)} {ent q e f x size : ℕ} {l : List ℕ}

theorem heap_init (ok : CfgOk cfg t) (hhead : t.head = 0) (m : Mem) :
    Heap cfg t (queInit cfg.freeque (queInit cfg.areaque m)) [] [] := by
  have hq : QUEUESZ = 8 := rfl
  set m₀ := queInit cfg.freeque (queInit cfg.areaque m)
  have hm₀ : m₀ cfg.areaque = ⟨cfg.areaque, cfg.areaque⟩ := by
    refine (single_apply_of_ne ?_ _).trans (single_apply_self _ _)
    have := ok.heads
    omega
  refine ⟨⟨nofun, nofun, nofun, nofun, List.Pairwise.nil, nofun, nofun⟩, ?_, ?_, nofun, nofun,
    ⟨⟨?_, ?_⟩, List.Pairwise.nil, nofun⟩, List.Perm.refl _⟩
  · refine isRing_nil.mpr ?_
    ext
    · rw [untag_next, hm₀]
    · rw [untag_prev, hm₀]
      exact Nat.div_mul_cancel ok.areaque_dvd
  · unfold tagAt
    rw [hm₀, hhead]
    exact Nat.mod_eq_zero_of_dvd ok.areaque_dvd
  · intro r hr
    cases List.mem_singleton.mp hr
    exact isRing_single _ _
  · exact List.nodup_singleton _

/-- A cell is linked in at the front of `areaque`. -/
theorem insertAreaQue_front (r : IsRing (untag cfg.bits m) cfg.areaque l)
    (hque : 2 ^ cfg.bits ∣ cfg.areaque) (hd : 2 ^ cfg.bits ∣ ent) (hent : ent ∉ cfg.areaque :: l) :
    let m' := insertAreaQue cfg m cfg.areaque ent
    IsRing (untag cfg.bits m') cfg.areaque (ent :: l) ∧
      (∀ z, tagAt cfg.bits m' z = if z = ent then 0 else tagAt cfg.bits m z) ∧
      (∀ z, z ∉ cfg.areaque :: ent :: l → m' z = m z) ∧
      ∀ z, z ≠ cfg.areaque → z ≠ ent → (m' z).next = (m z).next := by
  intro m'
  have hlink := IsRing.linked (a := []) r
  have hnext : (m cfg.areaque).next = l.headD cfg.areaque := hlink.1
  have hmem : l.headD cfg.areaque ∈ cfg.areaque :: l := by
    have := headD_mem_concat cfg.areaque l
    simp only [List.mem_append, List.mem_cons, List.not_mem_nil, or_false] at this ⊢
    tauto
  have hne : ent ≠ cfg.areaque := fun c => hent (c ▸ List.mem_cons_self)
  have hnx : ent ≠ (m cfg.areaque).next := fun c => hent (c ▸ hnext ▸ hmem)
  have hp : (untag cfg.bits m (m cfg.areaque).next).prev = cfg.areaque := by
    rw [hnext]
    exact hlink.2
  refine ⟨?_, fun z => tagAt_insertAreaQue hque hd hne hnx z, fun z hz => ?_, fun z h₁ h₂ => ?_⟩
  · rw [untag_insertAreaQue hque hd hne hnx hp, hnext]
    exact r.insertBefore (a := []) hent
  · refine insertAreaQue_frame hne hnx ?_ ?_ ?_
    · exact fun c => hz (c ▸ List.mem_cons_self)
    · exact fun c => hz (c ▸ List.mem_cons_of_mem _ List.mem_cons_self)
    · rintro rfl
      rw [hnext] at hz
      simp only [List.mem_cons, not_or] at hmem hz
      tauto
  · rw [insertAreaQue_next hne, if_neg h₁, if_neg h₂]

/-- The end marker and the first area of a block are linked in. -/
theorem insertAreaQue_block (r : IsRing (untag cfg.bits m) cfg.areaque l)
    (hque : 2 ^ cfg.bits ∣ cfg.areaque) (hdq : 2 ^ cfg.bits ∣ q) (hde : 2 ^ cfg.bits ∣ e)
    (hq : q ∉ cfg.areaque :: l) (he : e ∉ cfg.areaque :: l) (hne : q ≠ e) :
    let m' := insertAreaQue cfg (insertAreaQue cfg m cfg.areaque e) cfg.areaque q
    IsRing (untag cfg.bits m') cfg.areaque (q :: e :: l) ∧
      (∀ z, tagAt cfg.bits m' z = if z = q ∨ z = e then 0 else tagAt cfg.bits m z) ∧
      (∀ z, z ∉ cfg.areaque :: q :: e :: l → m' z = m z) ∧
      ∀ z, z ≠ cfg.areaque → z ≠ q → z ≠ e → (m' z).next = (m z).next := by
  intro m'
  obtain ⟨r₁, t₁, f₁, n₁⟩ := insertAreaQue_front r hque hde he
  have hq₁ : q ∉ cfg.areaque :: e :: l := by
    simp only [List.mem_cons, not_or] at hq ⊢
    exact ⟨hq.1, hne, hq.2⟩
  obtain ⟨r₂, t₂, f₂, n₂⟩ := insertAreaQue_front r₁ hque hdq hq₁
  refine ⟨r₂, fun z => ?_, fun z hz => ?_, fun z h₁ h₂ h₃ => ?_⟩
  · rw [t₂, t₁]
    by_cases h₁ : z = q
    · rw [if_pos h₁, if_pos (Or.inl h₁)]
    · rw [if_neg h₁]
      simp only [h₁, false_or]
  · refine (f₂ z hz).trans (f₁ z fun hc => hz ?_)
    simp only [List.mem_cons] at hc ⊢
    tauto
  · rw [n₂ z h₁ h₂, n₁ z h₁ h₃]

theorem setAreaFlag_spec (h0 : tagAt cfg.bits m x = 0) (hf : f < 2 ^ cfg.bits) :
    untag cfg.bits (setAreaFlag m x f) = untag cfg.bits m ∧
      tagAt cfg.bits (setAreaFlag m x f) x = f ∧
      ∀ z, z ≠ x → setAreaFlag m x f z = m z := by
  have hd : 2 ^ cfg.bits ∣ (m x).prev := Nat.dvd_of_mod_eq_zero h0
  have hv : (setAreaFlag m x f x).prev = (m x).prev + f := by
    unfold setAreaFlag
    rw [setPrev_prev, if_pos rfl, mul_or_low hd hf]
  have hframe (z : ℕ) (hz : z ≠ x) : setAreaFlag m x f z = m z := by
    unfold setAreaFlag
    rw [setPrev_apply, if_neg hz]
  refine ⟨?_, ?_, hframe⟩
  · funext z
    by_cases hz : z = x
    · subst hz
      ext
      · exact setPrev_next m z _ z
      · rw [untag_prev, hv, add_div_low hd hf, untag_prev, Nat.div_mul_cancel hd]
    · exact untag_eq_of_eq (hframe z hz)
  · rw [tagAt, hv, add_mod_low hd hf]

/-- The links after a block was linked in and flags of its cells and of `areaque` were set. -/
structure BlockLinked (cfg : AreaCfg) (t : BlockTags) (m m' : Mem) (l : List ℕ) (q e : ℕ) :
    Prop where
  ring : IsRing (untag cfg.bits m') cfg.areaque (q :: e :: l)
  headTag : tagAt cfg.bits m' cfg.areaque = t.head
  topTag : tagAt cfg.bits m' q = t.top
  finTag : tagAt cfg.bits m' e = t.fin
  tag : ∀ z ∈ l, tagAt cfg.bits m' z = tagAt cfg.bits m z
  frame : ∀ z, z ∉ cfg.areaque :: q :: e :: l → m' z = m z
  next : ∀ z, z ≠ cfg.areaque → z ≠ q → z ≠ e → (m' z).next = (m z).next

theorem blockLinked_insert (r : IsRing (untag cfg.bits m) cfg.areaque l)
    (hque : 2 ^ cfg.bits ∣ cfg.areaque) (hdq : 2 ^ cfg.bits ∣ q) (hde : 2 ^ cfg.bits ∣ e)
    (hq : q ∉ cfg.areaque :: l) (he : e ∉ cfg.areaque :: l) (hne : q ≠ e) :
    BlockLinked cfg ⟨tagAt cfg.bits m cfg.areaque, 0, 0⟩ m
      (insertAreaQue cfg (insertAreaQue cfg m cfg.areaque e) cfg.areaque q) l q e := by
  obtain ⟨ring, tag, frame, next⟩ := insertAreaQue_block r hque hdq hde hq he hne
  simp only [List.mem_cons, not_or] at hq he
  refine ⟨ring, ?_, ?_, ?_, fun z hz => ?_, frame, next⟩
  · rw [tag, if_neg]
    rintro (hc | hc)
    · exact hq.1 hc.symm
    · exact he.1 hc.symm
  · rw [tag, if_pos (Or.inl rfl)]
  · rw [tag, if_pos (Or.inr rfl)]
  · rw [tag, if_neg]
    rintro (rfl | rfl)
    · exact hq.2 hz
    · exact he.2 hz

/-- A flag is set in one of the three cells. -/
theorem BlockLinked.flag (h : BlockLinked cfg t m m' l q e) (hx : x = cfg.areaque ∨ x = q ∨ x = e)
    (h0 : tagAt cfg.bits m' x = 0) (hf : f < 2 ^ cfg.bits) :
    BlockLinked cfg ⟨if x = cfg.areaque then f else t.head, if x = q then f else t.top,
      if x = e then f else t.fin⟩ m (setAreaFlag m' x f) l q e := by
  obtain ⟨u, v, fr⟩ := setAreaFlag_spec h0 hf
  have htag {y b : ℕ} (hy : tagAt cfg.bits m' y = b) :
      tagAt cfg.bits (setAreaFlag m' x f) y = if x = y then f else b := by
    by_cases hxy : x = y
    · rw [if_pos hxy, ← hxy, v]
    · rw [if_neg hxy, tagAt_eq_of_eq (fr y fun c => hxy c.symm), hy]
  have hnd := h.ring.nodup
  simp only [List.nodup_cons, List.mem_cons, not_or] at hnd
  refine ⟨u ▸ h.ring, htag h.headTag, htag h.topTag, htag h.finTag, fun z hz => ?_, fun z hz => ?_,
    fun z h₁ h₂ h₃ => ?_⟩
  · rw [htag (h.tag z hz), if_neg]
    rintro rfl
    rcases hx with rfl | rfl | rfl
    · exact hnd.1.2.2 hz
    · exact hnd.2.1.2 hz
    · exact hnd.2.2.1 hz
  · rw [fr z, h.frame z hz]
    simp only [List.mem_cons, not_or] at hz
    rintro rfl
    tauto
  · rw [fr z, h.next z h₁ h₂ h₃]
    rintro rfl
    tauto

/-- A block of one loose area. -/
def newBlock (q size : ℕ) : Block := ⟨q, [⟨q, size, .loose⟩], q + QUEUESZ + size⟩

/-- **A new block.** -/
theorem Heap.addBlock (h : Heap cfg t m B G) (ok : CfgOk cfg t) (htop : t'.top = t.top)
    (hfin : t'.fin = t.fin) (hsize : MIN_FRAGMENT ≤ size ∧ QUEUESZ ∣ size) (hq : QUEUESZ ∣ q)
    (hlt : q + 2 * QUEUESZ + size ≤ 2 ^ 32)
    (hfresh : ∀ b ∈ B, q + 2 * QUEUESZ + size ≤ b.base ∨ b.fin + QUEUESZ ≤ q)
    (harea : (newBlock q size).Avoids cfg.areaque) (hfree : (newBlock q size).Avoids cfg.freeque)
    (hl : BlockLinked cfg t' m m' (cellsOf B) q (q + QUEUESZ + size)) :
    Heap cfg t' m' (newBlock q size :: B) G := by
  have h8 : QUEUESZ = 8 := rfl
  have h16 : MIN_FRAGMENT = 16 := rfl
  -- the queue of free areas keeps away from the new block
  have hnode (z : ℕ) (hz : z ∈ nodes (queueRings (· + QUEUESZ) cfg.freeque G)) :
      z ∉ cfg.areaque :: q :: (q + QUEUESZ + size) :: cellsOf B := by
    have hz' := h.node_not_cell ok hz
    have hout : z ≠ q ∧ z ≠ q + QUEUESZ + size := by
      rcases h.mem_queue_nodes.mp hz with rfl | ⟨a, ha, -, hz⟩
      · have hfree : cfg.freeque + QUEUESZ ≤ q ∨ q + QUEUESZ + size + QUEUESZ ≤ cfg.freeque := hfree
        omega
      · obtain ⟨b, hb, hab⟩ := mem_areasOf.mp ha
        have := hfresh b hb
        have := (h.tiles b hb).bounds hab
        have := (h.sizes a ha).1
        omega
    simp only [List.mem_cons, not_or] at hz' ⊢
    exact ⟨hz'.1, hout.1, hout.2, hz'.2⟩
  have hb := h.buckets_congr (fun z hz => hl.frame z (hnode z hz)) fun a ha hf => by
    obtain ⟨b, hb, hab⟩ := mem_areasOf.mp ha
    have h₁ := hfresh b hb
    have h₂ := (h.tiles b hb).bounds hab
    refine hl.next a.addr (fun e => ?_) (by omega) (by omega)
    have hc : a.addr ∈ cellsOf B := mem_cellsOf.mpr ⟨b, hb, Or.inr ⟨a, hab, rfl⟩⟩
    exact (List.nodup_cons.mp h.ring.nodup).1 (e ▸ hc)
  have hcells : cellsOf (newBlock q size :: B) = q :: (q + QUEUESZ + size) :: cellsOf B := rfl
  have hareas : areasOf (newBlock q size :: B) = ⟨q, size, .loose⟩ :: areasOf B := rfl
  refine ⟨⟨?_, ?_, ?_, ?_, ?_, ?_, ?_⟩, hcells ▸ hl.ring, hl.headTag, ?_, ?_, hb, ?_⟩
  · refine List.forall_mem_cons.mpr ⟨⟨rfl, rfl⟩, h.tiles⟩
  · exact List.forall_mem_cons.mpr ⟨hq, h.dvd⟩
  · refine List.forall_mem_cons.mpr ⟨?_, h.fin_le⟩
    show q + QUEUESZ + size + QUEUESZ ≤ _
    omega
  · rw [hareas]
    exact List.forall_mem_cons.mpr ⟨hsize, h.sizes⟩
  · refine List.pairwise_cons.mpr ⟨fun b hb => ?_, h.apart⟩
    have := hfresh b hb
    show q + QUEUESZ + size + QUEUESZ ≤ _ ∨ _ ≤ q
    omega
  · exact List.forall_mem_cons.mpr ⟨harea, h.areaque⟩
  · exact List.forall_mem_cons.mpr ⟨hfree, h.freeque⟩
  · refine List.forall_mem_cons.mpr ⟨fun a ha => ?_, fun b hb a ha => ?_⟩
    · rw [List.mem_singleton.mp ha]
      refine hl.topTag.trans ?_
      simp [areaTag, newBlock]
    · rw [hl.tag a.addr (mem_cellsOf.mpr ⟨b, hb, Or.inr ⟨a, ha, rfl⟩⟩), h.tag b hb a ha]
      unfold areaTag
      rw [htop]
  · refine List.forall_mem_cons.mpr ⟨hl.finTag, fun b hb => ?_⟩
    rw [hl.tag b.fin (mem_cellsOf.mpr ⟨b, hb, Or.inl rfl⟩), h.finTag b hb, hfin]
  · exact h.free.trans (List.Perm.of_eq rfl)

/-- A cell is unlinked from `areaque`. -/
theorem removeAreaQue_ring {u v : List ℕ} (r : IsRing (untag cfg.bits m) cfg.areaque (u ++ x :: v))
    (hlt : (m x).prev < 2 ^ 32) :
    let m' := removeAreaQue cfg m x
    IsRing (untag cfg.bits m') cfg.areaque (u ++ v) ∧
      (∀ z, tagAt cfg.bits m' z = tagAt cfg.bits m z) ∧
      (∀ z, z ∉ cfg.areaque :: (u ++ x :: v) → m' z = m z) ∧
      ∀ z, z ≠ u.getLastD cfg.areaque → (m' z).next = (m z).next := by
  intro m'
  have hprev : (untag cfg.bits m x).prev = u.getLastD cfg.areaque := r.prev_mid
  have hnext : (m x).next = v.headD cfg.areaque := r.next_mid
  have hnd := r.nodup
  have hpm : u.getLastD cfg.areaque ∈ cfg.areaque :: u := getLastD_mem_cons _ u
  have hnm : v.headD cfg.areaque ∈ v ++ [cfg.areaque] := headD_mem_concat _ v
  have hx : x ∉ cfg.areaque :: (u ++ v) := by
    have hp : (cfg.areaque :: (u ++ x :: v)).Perm (x :: cfg.areaque :: (u ++ v)) :=
      (List.perm_middle.cons _).trans (List.Perm.swap _ _ _)
    exact (List.nodup_cons.mp (hp.nodup_iff.mp hnd)).1
  simp only [List.mem_cons, List.mem_append, not_or, List.not_mem_nil, or_false] at hx hpm hnm
  have hnx : (m x).next ≠ x := by
    rw [hnext]
    rintro e
    rw [e] at hnm
    tauto
  have hp : (untag cfg.bits m x).prev ≠ x := by
    rw [hprev]
    rintro e
    rw [e] at hpm
    tauto
  refine ⟨?_, tagAt_removeAreaQue hlt hp, fun z hz => ?_, fun z hz => ?_⟩
  · rw [untag_removeAreaQue hlt hnx hp]
    exact r.unlink
  · simp only [List.mem_cons, List.mem_append, not_or] at hz
    refine removeAreaQue_frame hlt hp ?_ ?_
    · rw [hprev]
      rintro rfl
      tauto
    · rw [hnext]
      rintro rfl
      tauto
  · rw [removeAreaQue_next hlt, hprev, if_neg hz]

theorem BlockLayout.sublist (L : BlockLayout cfg B) (h : B₁.Sublist B) : BlockLayout cfg B₁ := by
  refine ⟨fun b hb => L.tiles b (h.subset hb), fun b hb => L.dvd b (h.subset hb),
    fun b hb => L.fin_le b (h.subset hb), fun a ha => L.sizes a ?_, L.apart.sublist h,
    fun b hb => L.areaque b (h.subset hb), fun b hb => L.freeque b (h.subset hb)⟩
  obtain ⟨b, hb, hab⟩ := mem_areasOf.mp ha
  exact mem_areasOf.mpr ⟨b, h.subset hb, hab⟩

/-- **A block goes**: its end marker and its only area are taken out. -/
theorem Heap.dropBlock {c : Place} {a : HeapArea} (h : Heap cfg t m (c.fill [a]) G)
    (ok : CfgOk cfg t) (ha : a.st = .loose) (hl : c.left = []) (hr : c.right = []) :
    Heap cfg t (removeAreaQue cfg (removeAreaQue cfg m (m a.addr).next) a.addr) (c.before ++
      c.after) G ∧
      ∀ z, z ∉ cfg.areaque :: cellsOf (c.fill [a]) →
        removeAreaQue cfg (removeAreaQue cfg m (m a.addr).next) a.addr z = m z := by
  have ring := h.ring_fill
  have hcells : cellsOf (c.fill [a]) = (cellsOf c.before ++ [a.addr]) ++ c.fin ::
      cellsOf c.after := by
    rw [cellsOf_fill, hl, hr]
    simp
  have hnext : (m a.addr).next = c.fin := by
    have hn : (m a.addr).next = _ := ring.next_mid
    rw [hn, hr]
    rfl
  have ring₀ := h.ring
  rw [hcells] at ring₀
  have hfinCell : c.fin ∈ cellsOf (c.fill [a]) := by rw [hcells]; simp
  have hareaCell : a.addr ∈ cellsOf (c.fill [a]) := by rw [hcells]; simp
  obtain ⟨ring₁, tag₁, frame₁, next₁⟩ := removeAreaQue_ring ring₀ (h.prev_lt ok hfinCell)
  set m₁ := removeAreaQue cfg m c.fin with hm₁
  rw [List.append_assoc, List.singleton_append] at ring₁
  have hlt₁ : (m₁ a.addr).prev < 2 ^ 32 := by
    have hlt := h.prev_lt ok hareaCell
    rw [prev_eq cfg.bits] at hlt ⊢
    rw [ring₁.prev_mid, tag₁]
    rw [List.append_assoc, List.singleton_append] at ring₀
    rwa [ring₀.prev_mid] at hlt
  obtain ⟨ring₂, tag₂, frame₂, next₂⟩ := removeAreaQue_ring ring₁ hlt₁
  set m₂ := removeAreaQue cfg m₁ a.addr
  rw [hnext, ← hm₁]
  have hsub : (c.before ++ c.after).Sublist (c.fill [a]) :=
    (List.sublist_cons_self _ c.after).append_left c.before
  have hcellsub : cellsOf (c.before ++ c.after) = cellsOf c.before ++ cellsOf c.after :=
    List.flatMap_append
  have hmem : a ∈ areasOf (c.fill [a]) := mem_fill (List.mem_singleton.mpr rfl)
  have htag (z : ℕ) : tagAt cfg.bits m₂ z = tagAt cfg.bits m z := (tag₂ z).trans (tag₁ z)
  have hframe (z : ℕ) (hz : z ∉ cfg.areaque :: cellsOf (c.fill [a])) : m₂ z = m z := by
    rw [hcells] at hz
    refine (frame₂ z fun hc => hz ?_).trans (frame₁ z hz)
    simp only [List.mem_cons, List.mem_append] at hc ⊢
    tauto
  refine ⟨⟨h.toBlockLayout.sublist hsub, hcellsub ▸ ring₂, (htag _).trans h.headTag, ?_, ?_,
    h.buckets_congr (fun z hz => hframe z (h.node_not_cell ok hz)) fun a' ha' hf => ?_, ?_⟩, hframe⟩
  · exact fun b hb a' ha' => (htag _).trans (h.tag b (hsub.subset hb) a' ha')
  · exact fun b hb => (htag _).trans (h.finTag b (hsub.subset hb))
  · -- no free area lies in front of the removed cells
    rw [next₂, next₁]
    · rw [List.getLastD_concat]
      rintro e
      have := h.area_eq ha' hmem (d := 0) (f := 0) (by have : QUEUESZ = 8 := rfl; omega)
        (by have : QUEUESZ = 8 := rfl; omega) (by rw [e])
      rw [this, ha] at hf
      cases hf
    · intro e
      have hq : QUEUESZ = 8 := rfl
      rcases List.eq_nil_or_concat' c.before with hb | ⟨B', b, hb⟩
      · rw [hb] at e
        have hcell : a'.addr ∈ cellsOf (c.fill [a]) := by
          obtain ⟨b, hb, hab⟩ := mem_areasOf.mp ha'
          exact mem_cellsOf.mpr ⟨b, hb, Or.inr ⟨a', hab, rfl⟩⟩
        have e : a'.addr = cfg.areaque := e
        rw [e] at hcell
        exact (List.nodup_cons.mp h.ring.nodup).1 hcell
      · have hlast : (cellsOf c.before).getLastD cfg.areaque = b.fin := by
          rw [hb, cellsOf, List.flatMap_append, List.flatMap_singleton, Block.cells,
            ← List.append_assoc, List.getLastD_concat]
        have hbm : b ∈ c.fill [a] := by
          refine List.mem_append_left _ ?_
          rw [hb]
          simp
        have := h.fin_apart ha' hbm
        omega
  · have hfree := h.free
    rw [freeCells_fill, hl, hr, List.filter_singleton, show decide (a.st = .free) = false by
      rw [ha]; rfl] at hfree
    refine hfree.trans (List.Perm.of_eq ?_)
    unfold freeCells areasOf
    simp

end SmpTKernel
