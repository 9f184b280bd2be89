import SmpTKernel.AreaIdle

/-!
# Blocks handed out

`OwnedHeap` is a heap whose areas in use are the blocks handed out. In `WorkingHeap` one area is
loose and may become free: the state between the search and the allocation, and between the merging
of a released area and its registration.
-/

namespace SmpTKernel

open LinkRing Words Tiling

variable {cfg : AreaCfg} {t : BlockTags} {m m' : Mem} {B : List Block} {G : List (ℕ × List ℕ)}
  {c : Place} {a x : HeapArea} {areas : List HeapArea} {out out' : List (ℕ × ℤ)} {asked blksz : ℤ}
  {blk z : ℕ}

/-- The areas in use are the blocks handed out, and each is as large as was asked for. -/
structure HandedOut (areas : List HeapArea) (out : List (ℕ × ℤ)) : Prop where
  perm : (out.map Prod.fst).Perm
    ((areas.filter fun a => a.st = .used).map fun a => a.addr + QUEUESZ)
  large : ∀ o ∈ out, ∃ a ∈ areas, a.st = .used ∧ a.addr + QUEUESZ = o.1 ∧ o.2 ≤ a.size

theorem HandedOut.congr {areas' : List HeapArea} (h : HandedOut areas out)
    (e : areas'.filter (fun a => a.st = .used) = areas.filter fun a => a.st = .used) :
    HandedOut areas' out := by
  refine ⟨e ▸ h.perm, fun o ho => ?_⟩
  obtain ⟨a, ha, hu, hao, hle⟩ := h.large o ho
  have hm : a ∈ areas'.filter fun a => a.st = .used := by
    rw [e]
    exact List.mem_filter.mpr ⟨ha, decide_eq_true hu⟩
  exact ⟨a, List.mem_of_mem_filter hm, hu, hao, hle⟩

/-- An area becomes used: it is handed out. -/
theorem HandedOut.cons {l r rest : List HeapArea} {a a' : HeapArea}
    (h : HandedOut (l ++ [a] ++ r) out) (ha : a.st ≠ .used) (ha' : a'.st = .used)
    (hrest : ∀ x ∈ rest, x.st = .free) (hsize : asked ≤ a'.size) :
    HandedOut (l ++ (a' :: rest) ++ r) ((a'.addr + QUEUESZ, asked) :: out) := by
  have hr : rest.filter (fun a => a.st = .used) = [] := by
    rw [List.filter_eq_nil_iff]
    intro x hx
    rw [hrest x hx]
    decide
  constructor
  · have hp := h.perm
    rw [List.filter_append, List.filter_append, List.filter_cons_of_neg (by simpa using ha)] at hp
    rw [List.filter_append, List.filter_append, List.filter_cons_of_pos (by rw [ha']; rfl), hr]
    simp only [List.filter_nil, List.append_nil, List.map_append, List.map_cons, List.append_assoc,
      List.cons_append, List.nil_append] at hp ⊢
    exact (hp.cons _).trans List.perm_middle.symm
  · intro o ho
    rcases List.mem_cons.mp ho with rfl | ho
    · exact ⟨a', by simp, ha', rfl, hsize⟩
    · obtain ⟨x, hx, hu, hxo⟩ := h.large o ho
      refine ⟨x, ?_, hu, hxo⟩
      simp only [List.mem_append, List.mem_cons, List.not_mem_nil, or_false] at hx ⊢
      rcases hx with (hx | rfl) | hx
      · exact Or.inl (Or.inl hx)
      · exact absurd hu ha
      · exact Or.inr hx

/-- An area in use is released: it and free neighbours give way to one free area. -/
theorem HandedOut.erase {l r l' r' : List HeapArea} {a x : HeapArea}
    (h : HandedOut (l ++ [a] ++ r) out) (hnd : ((l ++ [a] ++ r).map Area.addr).Nodup)
    (ha : a.st = .used) (hx : x.st ≠ .used)
    (hl : l.filter (fun a => a.st = .used) = l'.filter fun a => a.st = .used)
    (hr : r.filter (fun a => a.st = .used) = r'.filter fun a => a.st = .used) :
    HandedOut (l' ++ [x] ++ r') (out.filter fun o => o.1 ≠ a.addr + QUEUESZ) := by
  have hp := h.perm
  rw [List.filter_append, List.filter_append, List.filter_cons_of_pos (by rw [ha]; rfl),
    hl, hr] at hp
  simp only [List.filter_nil, List.map_append, List.map_cons, List.append_assoc, List.cons_append,
    List.nil_append] at hp hnd
  -- no other area has this address
  have hother (y : HeapArea) (hy : y ∈ l ∨ y ∈ r) : y.addr ≠ a.addr := by
    have hn := (List.perm_middle.nodup_iff.mp hnd)
    intro e
    refine (List.nodup_cons.mp hn).1 ?_
    rw [← e, ← List.map_append]
    exact List.mem_map.mpr ⟨y, List.mem_append.mpr hy, rfl⟩
  have hmem {k k' : List HeapArea}
      (e : k.filter (fun a => a.st = .used) = k'.filter fun a => a.st = .used) {y : HeapArea}
      (hu : y.st = .used) : y ∈ k ↔ y ∈ k' := by
    have h₁ : y ∈ k.filter (fun a => a.st = .used) ↔ _ := List.mem_filter
    have h₂ : y ∈ k'.filter (fun a => a.st = .used) ↔ _ := List.mem_filter
    rw [e] at h₁
    simp only [hu, decide_true, and_true] at h₁ h₂
    rw [← h₁, h₂]
  constructor
  · rw [List.filter_append, List.filter_append, List.filter_cons_of_neg (by simpa using hx)]
    have e : (out.filter fun o => o.1 ≠ a.addr + QUEUESZ).map Prod.fst =
        (out.map Prod.fst).filter fun p => p ≠ a.addr + QUEUESZ := by
      rw [List.filter_map]
      rfl
    have hkeep (k k' : List HeapArea) (hk : ∀ y ∈ k, y ∈ l ∨ y ∈ r)
        (e : k.filter (fun a => a.st = .used) = k'.filter fun a => a.st = .used) :
        ((k'.filter fun a => a.st = .used).map fun a => a.addr + QUEUESZ).filter
          (fun p => p ≠ a.addr + QUEUESZ) =
        (k'.filter fun a => a.st = .used).map fun a => a.addr + QUEUESZ := by
      rw [List.filter_eq_self]
      intro p hp
      obtain ⟨y, hy, rfl⟩ := List.mem_map.mp hp
      rw [← e] at hy
      have := hother y (hk y (List.mem_of_mem_filter hy))
      simpa using this
    have hp' := hp.filter fun p => p ≠ a.addr + QUEUESZ
    rw [List.filter_append, List.filter_cons_of_neg (by simp), hkeep l l' (fun y hy =>
      Or.inl hy) hl, hkeep r r' (fun y hy => Or.inr hy) hr] at hp'
    rw [e]
    simpa using hp'
  · intro o ho
    obtain ⟨ho, hne⟩ := List.mem_filter.mp ho
    obtain ⟨y, hy, hu, hyo⟩ := h.large o ho
    refine ⟨y, ?_, hu, hyo⟩
    simp only [List.mem_append, List.mem_cons, List.not_mem_nil, or_false] at hy ⊢
    rcases hy with (hy | rfl) | hy
    · exact Or.inl (Or.inl ((hmem hl hu).mp hy))
    · exact absurd hyo.1.symm (by simpa using hne)
    · exact Or.inr ((hmem hr hu).mp hy)

theorem filter_used_of_free {k k' : List HeapArea} {n : HeapArea} (hn : n.st = .free)
    (h : k' = k ∨ k = n :: k' ∨ k = k' ++ [n]) :
    k.filter (fun a => a.st = .used) = k'.filter fun a => a.st = .used := by
  rcases h with rfl | rfl | rfl
  · rfl
  · rw [List.filter_cons_of_neg (by rw [hn]; decide)]
  · rw [List.filter_append, List.filter_cons_of_neg (by rw [hn]; decide)]
    exact List.append_nil _

theorem Heap.addr_nodup (h : Heap cfg t m B G) : ((areasOf B).map Area.addr).Nodup := by
  have hsub : ((areasOf B).map Area.addr).Sublist (cellsOf B) := by
    clear h
    induction B with
    | nil => exact List.Sublist.slnil
    | cons b B ih =>
      rw [areasOf, List.flatMap_cons, List.map_append]
      exact (List.sublist_append_left _ _).append ih
  exact (List.nodup_cons.mp h.ring.nodup).2.sublist hsub

theorem HandedOut.nodup (ho : HandedOut (areasOf B) out) (h : Heap cfg t m B G) :
    (out.map Prod.fst).Nodup := by
  rw [ho.perm.nodup_iff]
  refine List.pairwise_map.mpr (((List.pairwise_map.mp h.addr_nodup).filter _).imp
    fun {a b} hab => ?_)
  exact fun e => hab (Nat.add_right_cancel e)

theorem HandedOut.apart (ho : HandedOut (areasOf B) out) (h : Heap cfg t m B G) :
    out.Pairwise fun o p => (o.1 : ℤ) + o.2 ≤ p.1 ∨ (p.1 : ℤ) + p.2 ≤ o.1 := by
  refine (List.pairwise_map.mp (ho.nodup h)).imp_of_mem fun {o p} hmo hmp hne => ?_
  obtain ⟨a, ha, -, hao, hle⟩ := ho.large o hmo
  obtain ⟨b, hb, -, hbp, hle'⟩ := ho.large p hmp
  rcases h.area_eq_or_apart ha hb with rfl | hab | hab
  · exact absurd (hao.symm.trans hbp) hne
  · omega
  · omega

/-- The cell lies in a block handed out. -/
def InBlock (out : List (ℕ × ℤ)) (z : ℕ) : Prop := ∃ o ∈ out, o.1 ≤ z ∧ (z : ℤ) < o.1 + o.2

theorem HandedOut.owned (ho : HandedOut areas out) (hz : InBlock out z) : Owned areas z := by
  obtain ⟨o, hmem, h₁, h₂⟩ := hz
  obtain ⟨a, ha, hu, hao, hle⟩ := ho.large o hmem
  exact ⟨a, ha, hu, by omega, by omega⟩

/-- The queues do not run through the blocks handed out. -/
theorem HandedOut.not_cell (ho : HandedOut (areasOf B) out) (h : Heap cfg t m B G)
    (hz : InBlock out z) :
    z ∉ cfg.areaque :: cellsOf B :=
  (h.owned (ho.owned hz)).1

/-! ## The invariant -/

/-- Where the blocks begin and end. -/
def spans (B : List Block) : List (ℕ × ℕ) := B.map fun b => (b.base, b.fin)

theorem spans_fill {mid : List HeapArea} :
    spans (c.fill mid) = spans c.before ++ (c.base, c.fin) :: spans c.after := List.map_append

theorem quiet_fill {mid : List HeapArea} : (∀ b ∈ c.fill mid, Quiet b.areas) ↔
    Quiet (c.left ++ mid ++ c.right) ∧ ∀ b ∈ c.before ++ c.after, Quiet b.areas := by
  simp only [Place.fill, List.mem_append, List.mem_cons]
  constructor
  · exact fun h => ⟨h _ (Or.inr (Or.inl rfl)), fun b hb => h b (hb.imp_right Or.inr)⟩
  · rintro ⟨h₁, h₂⟩ b (hb | rfl | hb)
    · exact h₂ b (Or.inl hb)
    · exact h₁
    · exact h₂ b (Or.inr hb)

/-- A heap whose areas in use are the blocks `out`. -/
structure OwnedHeap (cfg : AreaCfg) (t : BlockTags) (m : Mem) (B : List Block)
    (out : List (ℕ × ℤ)) : Prop where
  heap : ∃ G, Heap cfg t m B G
  quiet : ∀ b ∈ B, Quiet b.areas
  handed : HandedOut (areasOf B) out

/-- A heap with one loose area, between areas in use. -/
structure WorkingHeap (cfg : AreaCfg) (t : BlockTags) (m : Mem) (c : Place) (x : HeapArea)
    (out : List (ℕ × ℤ)) : Prop where
  heap : ∃ G, Heap cfg t m (c.fill [x]) G
  loose : x.st = .loose
  left : Quiet c.left
  right : Quiet c.right
  around : UsedLast c.left ∧ UsedFirst c.right
  others : ∀ b ∈ c.before ++ c.after, Quiet b.areas
  handed : HandedOut (areasOf (c.fill [x])) out

/-- The owners write to their blocks, and others to memory outside the heap. -/
theorem OwnedHeap.write (o : OwnedHeap cfg t m B out)
    (hm : ∀ z, z = cfg.areaque ∨ z = cfg.freeque ∨ (∃ b ∈ B, b.base ≤ z ∧ z < b.fin + QUEUESZ) →
      (∀ p ∈ out, z < p.1 ∨ (p.1 : ℤ) + p.2 ≤ z) → m' z = m z) : OwnedHeap cfg t m' B out := by
  obtain ⟨G, h⟩ := o.heap
  refine ⟨⟨G, h.write fun z hin hz => hm z hin fun p hp => ?_⟩, o.quiet, o.handed⟩
  obtain ⟨a, ha, hu, hao, hle⟩ := o.handed.large p hp
  have := hz a ha hu
  omega

theorem OwnedHeap.take (o : OwnedHeap cfg t m B out) (ok : CfgOk cfg t)
    (hne : searchFreeArea cfg m blksz ≠ cfg.freeque) :
    ∃ c x, WorkingHeap cfg t (removeFreeQue m (searchFreeArea cfg m blksz)) c x out ∧
      searchFreeArea cfg m blksz = x.addr + QUEUESZ ∧ blksz ≤ x.size ∧
        spans (c.fill [x]) = spans B ∧
      ∀ z, InBlock out z → removeFreeQue m (searchFreeArea cfg m blksz) z = m z := by
  obtain ⟨G, h⟩ := o.heap
  obtain ⟨a, ha, hf, hs, hle⟩ := ((h.search ok blksz).resolve_left fun hc => hne hc.1).2
  obtain ⟨c, rfl⟩ := exists_place ha
  obtain ⟨hq, hothers⟩ := quiet_fill.mp o.quiet
  rw [List.append_assoc, List.singleton_append] at hq
  obtain ⟨hql, hqr, hu⟩ := hq.parts
  rw [hs]
  refine ⟨c, { a with st := .loose }, ⟨h.take ok hf, rfl, hql, hqr, hu hf, hothers,
    o.handed.congr ?_⟩, rfl, hle, by
      rw [spans_fill, spans_fill], fun z hz => h.take_frame hf (h.owned (o.handed.owned hz)).2⟩
  rw [areasOf_fill, areasOf_fill]
  simp [hf]

theorem Owned.around {l r mid : List HeapArea}
    (hz : Owned (areasOf (({ c with left := l, right := r }).fill [x])) z) (hx : x.st ≠ .used)
    (hl : l ⊆ c.left) (hr : r ⊆ c.right) : Owned (areasOf (c.fill mid)) z := by
  refine hz.mono fun b hb hu => ?_
  rw [areasOf_fill] at hb ⊢
  simp only [List.mem_append, List.mem_singleton] at hb ⊢
  rcases hb with ((hb | hb) | rfl) | hb | hb
  · exact Or.inl (Or.inl (Or.inl hb))
  · exact Or.inl (Or.inl (Or.inr (hl hb)))
  · exact absurd hu hx
  · exact Or.inr (Or.inl (hr hb))
  · exact Or.inr (Or.inr hb)

/-- What allocation leaves over lies between areas in use. -/
theorem quiet_rest {s : ℕ} {rest r : List HeapArea}
    (h : s = a.size ∧ rest = [] ∧ (a.size : ℤ) < blksz + (MIN_FRAGMENT + QUEUESZ) ∨
      ∃ n, a.size = s + QUEUESZ + n ∧ rest = [⟨a.addr + QUEUESZ + s, n, .free⟩] ∧ s = blksz)
    (hr : Quiet r) (hu : UsedFirst r) : (∀ y ∈ rest, y.st = .free) ∧ Quiet (rest ++ r) := by
  rcases h with ⟨-, rfl, -⟩ | ⟨n, -, rfl, -⟩
  · exact ⟨nofun, hr⟩
  · have hnil : Quiet [] := ⟨nofun, List.isChain_nil⟩
    refine ⟨fun y hy => by rw [List.mem_singleton.mp hy], ?_⟩
    exact hnil.insert hr nofun (Or.inr ⟨nofun, hu⟩)

/-- **Allocation** from the loose area. -/
theorem WorkingHeap.alloc (w : WorkingHeap cfg t m c x out) (ok : CfgOk cfg t)
    (h16 : (MIN_FRAGMENT : ℤ) ≤ blksz) (hdvd : (QUEUESZ : ℤ) ∣ blksz) (hle : blksz ≤ x.size)
    (hask : asked ≤ blksz) :
    (memAlloc cfg m x.addr blksz).1 = x.addr + QUEUESZ ∧
      (∃ B', OwnedHeap cfg t (memAlloc cfg m x.addr blksz).2 B' ((x.addr + QUEUESZ, asked) :: out) ∧
        spans B' = spans (c.fill [x])) ∧
      ∀ z, InBlock out z → (memAlloc cfg m x.addr blksz).2 z = m z := by
  obtain ⟨G, h⟩ := w.heap
  obtain ⟨s, rest, G₂, hptr, h₂, hs, hrest, hframe⟩ :=
    h.alloc ok (by rw [w.loose]; decide) h16 hdvd hle
  obtain ⟨hfree, hquiet⟩ := quiet_rest hrest w.right w.around.2
  refine ⟨hptr, ⟨_, ⟨⟨G₂, h₂⟩, quiet_fill.mpr ⟨?_, w.others⟩, ?_⟩, by rw [spans_fill, spans_fill]⟩,
    fun z hz => ?_⟩
  · rw [List.append_assoc, List.cons_append]
    exact w.left.insert hquiet nofun (Or.inl rfl)
  · have ho := w.handed
    rw [areasOf_fill] at ho ⊢
    exact ho.cons (by rw [w.loose]; decide) rfl hfree (hask.trans hs)
  · refine hframe z (Owned.around (w.handed.owned hz) ?_ (List.Subset.refl _) (List.Subset.refl _))
    rw [w.loose]
    decide

/-- **Registration** of the loose area. -/
theorem WorkingHeap.put (w : WorkingHeap cfg t m c x out) (ok : CfgOk cfg t) :
    (∃ B', OwnedHeap cfg t (appendFreeArea cfg m x.addr) B' out ∧ spans B' = spans (c.fill [x]) ∧
      ∀ z, Retired cfg.bits m (areasOf (c.fill [x])) z →
        Retired cfg.bits (appendFreeArea cfg m x.addr) (areasOf B') z) ∧
      ∀ z, InBlock out z → appendFreeArea cfg m x.addr z = m z := by
  obtain ⟨G, h⟩ := w.heap
  obtain ⟨hheap, hframe, -⟩ := h.put ok w.loose
  refine ⟨⟨_, ⟨hheap, quiet_fill.mpr ⟨?_, w.others⟩, w.handed.congr ?_⟩, by
    rw [spans_fill, spans_fill], fun z r => h.put_retired ok w.loose r⟩, fun z hz =>
      hframe z (w.handed.owned hz)⟩
  · rw [List.append_assoc, List.singleton_append]
    exact w.left.insert w.right nofun (Or.inr w.around)
  · rw [areasOf_fill, areasOf_fill]
    simp [w.loose]

theorem OwnedHeap.exists_area (o : OwnedHeap cfg t m B out) (hblk : blk ∈ out.map Prod.fst) :
    ∃ (c : Place) (a : HeapArea), B = c.fill [a] ∧ a.st = .used ∧ blk = a.addr + QUEUESZ := by
  obtain ⟨p, hp, rfl⟩ := List.mem_map.mp hblk
  obtain ⟨a, ha, hu, hap, -⟩ := o.handed.large p hp
  obtain ⟨c, e⟩ := exists_place ha
  exact ⟨c, a, e, hu, hap.symm⟩

theorem OwnedHeap.chk_used (o : OwnedHeap cfg t m B out) (ok : CfgOk cfg t)
    (hblk : blk ∈ out.map Prod.fst) :
    chkAreaFlag m (blk - QUEUESZ) AREA_USE = true := by
  obtain ⟨G, h⟩ := o.heap
  obtain ⟨c, a, rfl, hu, rfl⟩ := o.exists_area hblk
  have h1 : AREA_USE < 2 ^ cfg.bits := Nat.one_lt_two_pow ok.bits_pos.ne'
  have h2 := ok.top_even
  rw [Nat.add_sub_cancel, chkAreaFlag_eq h1, h.tag_fill, areaTag, if_pos hu]
  have hand : ((if a.addr = c.base then t.top else 0) + AREA_USE) &&& AREA_USE = 1 := by
    show _ &&& 1 = 1
    rw [Nat.and_one_is_mod]
    have hu : AREA_USE = 1 := rfl
    split_ifs <;> omega
  rw [hand]
  rfl

/-- In front of the first area of a block merging stops. -/
theorem Heap.first_stop (h : Heap cfg t m (c.fill [a]) G) (ha : a.st = .loose) (hl : c.left = [])
    {top : ℕ} (htop : top < 2 ^ cfg.bits) (h1 : AREA_USE < 2 ^ cfg.bits)
    (hstop : t.top &&& top ≠ 0 ∨ c.before = [] ∧ t.top = 0 ∧ t.head &&& AREA_USE ≠ 0) :
    chkAreaFlag m a.addr top = true ∨ chkAreaFlag m (m a.addr).prev AREA_USE = true := by
  have hbase : a.addr = c.base := by
    have ht := h.tiles_fill
    rw [hl] at ht
    exact ht.1
  have htag : tagAt cfg.bits m a.addr = t.top := by
    rw [h.tag_fill, areaTag, if_pos hbase, if_neg (by rw [ha]; decide)]
    rfl
  rcases hstop with hstop | ⟨hb, h0, hhead⟩
  · left
    rw [chkAreaFlag_eq htop, htag]
    exact decide_eq_true hstop
  · -- before the first area lies `areaque`
    right
    have hprev : (untag cfg.bits m a.addr).prev = cfg.areaque := by
      rw [h.ring_fill.prev_mid, hb, hl]
      rfl
    rw [prev_eq cfg.bits, hprev, htag, h0, Nat.add_zero, chkAreaFlag_eq h1, h.headTag]
    exact decide_eq_true hhead

/-- **Release** up to the registration: the area is merged with its free neighbours. -/
theorem OwnedHeap.release (o : OwnedHeap cfg t m B out) (ok : CfgOk cfg t)
    (hblk : blk ∈ out.map Prod.fst) {f top : ℕ} (hf : f < 2 ^ cfg.bits) (huse : AREA_USE &&& f ≠ 0)
    (hfin : t.fin &&& f ≠ 0) (htop : top < 2 ^ cfg.bits)
    (hstop : t.top &&& top ≠ 0 ∨ B.length = 1 ∧ t.top = 0 ∧ t.head &&& AREA_USE ≠ 0) :
    let aq := blk - QUEUESZ
    let r := mergePrev cfg (mergeNext cfg (clrAreaFlag m aq AREA_USE) aq f) aq top
    ∃ c x, WorkingHeap cfg t r.2 c x (out.filter fun o => o.1 ≠ blk) ∧ r.1 = x.addr ∧
      spans (c.fill [x]) = spans B ∧ (c.base ≤ blk ∧ blk ≤ c.fin) ∧
      (∀ z, InBlock (out.filter fun o => o.1 ≠ blk) z → r.2 z = m z) ∧
      ∀ z, Retired cfg.bits m (areasOf B) z ∨ z = aq →
      Retired cfg.bits r.2 (areasOf (c.fill [x])) z := by
  intro aq r
  obtain ⟨G, h⟩ := o.heap
  obtain ⟨c, a, rfl, hu, rfl⟩ := o.exists_area hblk
  have h1 : AREA_USE < 2 ^ cfg.bits := Nat.one_lt_two_pow ok.bits_pos.ne'
  have haq : aq = a.addr := Nat.add_sub_cancel a.addr QUEUESZ
  obtain ⟨hq, hothers⟩ := quiet_fill.mp o.quiet
  rw [List.append_assoc, List.singleton_append] at hq
  obtain ⟨hql, hqr, -⟩ := hq.parts
  have hbounds :=
    h.tiles_fill.bounds (List.mem_append_left _ (List.mem_append_right _
      (List.mem_singleton.mpr rfl)))
  have hbefore : t.top &&& top ≠ 0 ∨ c.before = [] ∧ t.top = 0 ∧ t.head &&& AREA_USE ≠ 0 := by
    rcases hstop with hne | ⟨hlen, h0, hh⟩
    · exact Or.inl hne
    · rw [Place.fill, List.length_append, List.length_cons] at hlen
      exact Or.inr ⟨List.length_eq_zero_iff.mp (by omega), h0, hh⟩
  have hloose : AreaState.loose ≠ .free := by decide
  have hlinked : AreaState.loose ≠ .used := by decide
  have h₁ := h.clrUsed ok hu
  obtain ⟨r', n, G₁, h₂, hqr', hur', hr', hframe₁, htag₁⟩ :=
    h₁.mergeNext_eq ok hloose hqr hf huse hfin
  obtain ⟨l', x, G₂, hptr, hx, h₃, hql', hul', hl', hframe₂, htag₂⟩ :=
    h₂.mergePrev_eq ok rfl hql htop
    fun hl => h₂.first_stop rfl hl htop h1 hbefore
  have hr : r = mergePrev cfg (mergeNext cfg (clrAreaFlag m a.addr AREA_USE) a.addr f)
      a.addr top := by
    rw [← haq]
  have hxu : x.st ≠ .used := by rw [hx]; decide
  have handed : HandedOut (areasOf (({ c with left := l', right := r' }).fill [x]))
      (out.filter fun o => o.1 ≠ a.addr + QUEUESZ) := by
    have ho := o.handed
    have hnd := h.addr_nodup
    rw [areasOf_fill] at ho hnd ⊢
    refine ho.erase hnd hu hxu ?_ ?_
    · rw [List.filter_append, List.filter_append]
      rcases hl' with ⟨e, -⟩ | ⟨n, e, hn, -⟩
      · rw [e]
      · rw [filter_used_of_free hn (Or.inr (Or.inr e))]
    · rw [List.filter_append, List.filter_append]
      rcases hr' with ⟨e, -⟩ | ⟨n, e, hn, -⟩
      · rw [e]
      · rw [filter_used_of_free hn (Or.inr (Or.inl e))]
  rw [hr]
  refine ⟨{ c with left := l', right := r' }, x, ⟨⟨G₂, h₃⟩, hx, hql', hqr', ⟨hul', hur'⟩, hothers,
    handed⟩, hptr, by rw [spans_fill, spans_fill], ⟨?_, ?_⟩, fun z hz => ?_, fun z hz => ?_⟩
  · exact hbounds.1.trans (Nat.le_add_right _ _)
  · exact (Nat.le_add_right _ _).trans hbounds.2
  · -- no step writes to the memory of another owner
    have hz := handed.owned hz
    have hsubl : l' ⊆ c.left := by
      rcases hl' with ⟨e, -⟩ | ⟨n, e, -⟩ <;> rw [e]
      exacts [List.Subset.refl _, List.subset_append_left _ _]
    have hsubr : r' ⊆ c.right := by
      rcases hr' with ⟨e, -⟩ | ⟨n, e, -⟩ <;> rw [e]
      exacts [List.Subset.refl _, List.subset_cons_self _ _]
    have hz₁ : Owned (areasOf (({ c with right := r' }).fill [⟨a.addr, n, .loose⟩])) z :=
      Owned.around (c := { c with right := r' }) hz hxu hsubl (List.Subset.refl _)
    have hz₂ : Owned (areasOf (c.fill [{ a with st := .loose }])) z :=
      Owned.around hz hxu hsubl hsubr
    rw [hframe₂ z hz₁, hframe₁ z hz₂]
    unfold clrAreaFlag
    rw [setPrev_apply, if_neg (h₁.owned_ne (List.mem_singleton.mpr rfl) hz₂)]
  · -- nor to the flags of areas that were released
    obtain ⟨hidle, hunused⟩ := h.clrUsed_retired ok hu (haq ▸ hz)
    have hidle₁ := h₁.idle_next hlinked hr' hidle
    refine ⟨h₂.idle_prev rfl hl' hidle₁, ?_⟩
    rw [htag₂ z (h₂.idle_node ok hidle₁), htag₁ z (h₁.idle_node ok hidle)]
    exact hunused

/-! ## Whole blocks -/

theorem OwnedHeap.addBlock {t' : BlockTags} {q size : ℕ} (o : OwnedHeap cfg t m B out)
    (ok : CfgOk cfg t) (htop : t'.top = t.top) (hfin : t'.fin = t.fin)
    (hsize : MIN_FRAGMENT ≤ size ∧ QUEUESZ ∣ size) (hq : QUEUESZ ∣ q)
    (hlt : q + 2 * QUEUESZ + size ≤ 2 ^ 32)
    (hfresh : ∀ b ∈ B, q + 2 * QUEUESZ + size ≤ b.base ∨ b.fin + QUEUESZ ≤ q)
    (harea : (newBlock q size).Avoids cfg.areaque) (hfree : (newBlock q size).Avoids cfg.freeque)
    (hl : BlockLinked cfg t' m m' (cellsOf B) q (q + QUEUESZ + size)) :
    WorkingHeap cfg t' m' ⟨[], q, [], [], q + QUEUESZ + size, B⟩ ⟨q, size, .loose⟩ out := by
  obtain ⟨G, h⟩ := o.heap
  have hnil : Quiet [] := ⟨nofun, List.isChain_nil⟩
  refine ⟨⟨G, h.addBlock ok htop hfin hsize hq hlt hfresh harea hfree hl⟩, rfl, hnil, hnil,
    ⟨nofun, nofun⟩, o.quiet, o.handed.congr ?_⟩
  exact List.filter_cons_of_neg (show ¬decide (AreaState.loose = AreaState.used) = true by decide)

theorem WorkingHeap.dropBlock (w : WorkingHeap cfg t m c x out) (ok : CfgOk cfg t)
    (hl : c.left = []) (hr : c.right = []) :
    OwnedHeap cfg t (removeAreaQue cfg (removeAreaQue cfg m (m x.addr).next) x.addr)
      (c.before ++ c.after)
        out ∧
      ∀ z, InBlock out z → removeAreaQue cfg (removeAreaQue cfg m (m x.addr).next) x.addr
        z = m z := by
  obtain ⟨G, h⟩ := w.heap
  obtain ⟨hheap, hframe⟩ := h.dropBlock ok w.loose hl hr
  refine ⟨⟨⟨G, hheap⟩, w.others, w.handed.congr ?_⟩, fun z hz => hframe z (w.handed.not_cell h hz)⟩
  rw [areasOf_fill, hl, hr]
  simp [areasOf, w.loose]

theorem BlockLayout.bases_nodup (L : BlockLayout cfg B) : (B.map Block.base).Nodup := by
  refine List.pairwise_map.mpr (L.apart.imp_of_mem fun {b b'} hb hb' hab => ?_)
  have hq : QUEUESZ = 8 := rfl
  have h₁ := (L.tiles b hb).le
  have h₂ := (L.tiles b' hb').le
  omega

theorem WorkingHeap.base_iff (w : WorkingHeap cfg t m c x out) :
    x.addr = c.base ↔ c.left = [] := by
  obtain ⟨G, h⟩ := w.heap
  have ht := h.tiles_fill
  rw [List.append_assoc, List.singleton_append] at ht
  have hleft := (tiles_middle.mp ht).1
  constructor
  · intro e
    rcases hl : c.left with _ | ⟨n, l⟩
    · rfl
    · rw [hl] at hleft
      have hb := hleft.bounds List.mem_cons_self
      have hq : QUEUESZ = 8 := rfl
      have h0 := hleft.1
      omega
  · intro hl
    rw [hl] at hleft
    exact hleft.symm

/-- A loose area is a whole block exactly if no area of the block is outstanding. -/
theorem WorkingHeap.whole_iff (w : WorkingHeap cfg t m c x out) :
    (c.left = [] ∧ c.right = []) ↔ ∀ o ∈ out, ¬(c.base ≤ o.1 ∧ o.1 < c.fin + QUEUESZ) := by
  obtain ⟨G, h⟩ := w.heap
  have hq : QUEUESZ = 8 := rfl
  have ht := h.tiles_fill
  -- an area in use next to it is outstanding
  have hout {n : HeapArea} (hn : n ∈ c.left ++ [x] ++ c.right) (hu : n.st = .used) :
      ∃ o ∈ out, c.base ≤ o.1 ∧ o.1 < c.fin + QUEUESZ := by
    have hmem : n ∈ areasOf (c.fill [x]) := mem_areasOf.mpr ⟨_, block_mem_fill, hn⟩
    have hp : n.addr + QUEUESZ ∈ out.map Prod.fst :=
      w.handed.perm.symm.subset (List.mem_map.mpr ⟨n, List.mem_filter.mpr ⟨hmem, decide_eq_true hu⟩,
        rfl⟩)
    obtain ⟨o, ho, e⟩ := List.mem_map.mp hp
    have := ht.bounds hn
    exact ⟨o, ho, by omega, by omega⟩
  constructor
  · rintro ⟨hl, hr⟩ o ho ⟨h₁, h₂⟩
    obtain ⟨n, hn, hu, hno, -⟩ := w.handed.large o ho
    obtain ⟨b, hb, hnb⟩ := mem_areasOf.mp hn
    have hbounds := (h.tiles b hb).bounds hnb
    rcases h.eq_or_apart hb (@block_mem_fill c [x]) with rfl | hab | hab
    · rw [hl, hr] at hnb
      rw [List.mem_singleton.mp hnb, w.loose] at hu
      cases hu
    · have hab : b.fin + QUEUESZ ≤ c.base := hab
      omega
    · have hab : c.fin + QUEUESZ ≤ b.base := hab
      omega
  · intro hno
    constructor
    · rcases List.eq_nil_or_concat' c.left with hl | ⟨l, n, hl⟩
      · exact hl
      · have hu := w.around.1 n (by rw [hl, List.getLast?_concat]; rfl)
        obtain ⟨o, ho, hin⟩ := hout (n := n) (by rw [hl]; simp) hu
        exact absurd hin (hno o ho)
    · rcases hr : c.right with _ | ⟨n, l⟩
      · rfl
      · have hu := w.around.2 n (by rw [hr]; rfl)
        obtain ⟨o, ho, hin⟩ := hout (n := n) (by rw [hr]; simp) hu
        exact absurd hin (hno o ho)

end SmpTKernel
