import SmpTKernel.AreaBlocks

/-!
# Areas that were released

The cell of an area that is released stays as it is when the area is merged with its neighbours: the
queues run through the first three cells of free areas only.
-/

namespace SmpTKernel

open LinkRing Words Tiling

variable {cfg : AreaCfg} {t : BlockTags} {m m' : Mem} {c : Place} {G : List (ℕ × List ℕ)}
  {B : List Block} {a n x : HeapArea} {z : ℕ} {areas areas' : List HeapArea}

/-- A cell of an area that is not in use, but none of the two for `freeque`. -/
def Idle (areas : List HeapArea) (z : ℕ) : Prop :=
  ∃ a ∈ areas, a.st ≠ .used ∧ (z = a.addr ∨ a.addr + 3 * QUEUESZ ≤ z) ∧
    z < a.addr + QUEUESZ + a.size

/-- The cell was the first of an area that is not in use any more. -/
structure Retired (bits : ℕ) (m : Mem) (areas : List HeapArea) (z : ℕ) : Prop where
  idle : Idle areas z
  unused : tagAt bits m z &&& AREA_USE = 0

/-- The areas become larger, with the same first cell or one that lies an area before. -/
theorem Idle.mono (hz : Idle areas z) (h : ∀ a ∈ areas, a.st ≠ .used → ∃ b ∈ areas', b.st ≠ .used ∧
    (b.addr = a.addr ∨ b.addr + 3 * QUEUESZ ≤ a.addr) ∧ a.addr + a.size ≤ b.addr + b.size) :
      Idle areas' z := by
  obtain ⟨a, ha, hu, hz, hlt⟩ := hz
  obtain ⟨b, hb, hub, hfirst, hle⟩ := h a ha hu
  exact ⟨b, hb, hub, by omega, by omega⟩

theorem Retired.chk (r : Retired cfg.bits m areas z) (h1 : AREA_USE < 2 ^ cfg.bits) :
    chkAreaFlag m z AREA_USE = false := by
  rw [chkAreaFlag_eq h1, r.unused]
  rfl

theorem Heap.idle_node (h : Heap cfg t m B G) (ok : CfgOk cfg t) (hz : Idle (areasOf B) z) :
    z ∉ nodes (queueRings (· + QUEUESZ) cfg.freeque G) := by
  obtain ⟨a, ha, hu, hfirst, hlt⟩ := hz
  have hq : QUEUESZ = 8 := rfl
  intro hc
  by_cases e : z = a.addr
  · have hcell : a.addr ∈ cellsOf B := by
      obtain ⟨b, hb, hab⟩ := mem_areasOf.mp ha
      exact mem_cellsOf.mpr ⟨b, hb, Or.inr ⟨a, hab, rfl⟩⟩
    exact h.node_not_cell ok hc (e ▸ List.mem_cons_of_mem _ hcell)
  · have hin := h.inside ha (x := z) (by omega) hlt
    rcases h.mem_queue_nodes.mp hc with rfl | ⟨b, hb, hf, hzb⟩
    · exact hin.2.1 rfl
    · have hmf : MIN_FRAGMENT = 16 := rfl
      have hsize := (h.sizes b hb).1
      rcases h.area_eq_or_apart ha hb with rfl | hab | hab <;> omega

theorem Heap.idle_ne (h : Heap cfg t m B G) (hx : x ∈ areasOf B) (hz : Idle (areasOf B) z) :
    z ≠ x.addr + QUEUESZ ∧ z ≠ x.addr + QUEUESZ + QUEUESZ := by
  obtain ⟨a, ha, hu, hfirst, hlt⟩ := hz
  have hq : QUEUESZ = 8 := rfl
  have hmf : MIN_FRAGMENT = 16 := rfl
  have hsize := (h.sizes x hx).1
  rcases h.area_eq_or_apart ha hx with rfl | hax | hax <;> omega

/-- The area at the place takes in the next. -/
theorem Heap.idle_next (h : Heap cfg t m (c.fill [a]) G) (ha : a.st ≠ .used) {r : List HeapArea}
    {s : ℕ} (hr : r = c.right ∧ s = a.size ∨ ∃ n, c.right = n :: r ∧ n.st = .free ∧
      s = a.size + QUEUESZ + n.size) (hz : Idle (areasOf (c.fill [a])) z) :
    Idle (areasOf (({ c with right := r }).fill [⟨a.addr, s, a.st⟩])) z := by
  have hq : QUEUESZ = 8 := rfl
  have hmf : MIN_FRAGMENT = 16 := rfl
  have hsize := (h.sizes_fill (List.mem_singleton.mpr rfl : a ∈ [a])).1
  have hle : a.size ≤ s := by
    rcases hr with ⟨-, rfl⟩ | ⟨n, -, -, rfl⟩ <;> omega
  refine hz.mono fun b hb hu => ?_
  rw [areasOf_fill] at hb ⊢
  simp only [List.mem_append, List.mem_singleton] at hb ⊢
  rcases hb with ((hb | hb) | rfl) | hb | hb
  · exact ⟨b, Or.inl (Or.inl (Or.inl hb)), hu, Or.inl rfl, le_rfl⟩
  · exact ⟨b, Or.inl (Or.inl (Or.inr hb)), hu, Or.inl rfl, le_rfl⟩
  · exact ⟨_, Or.inl (Or.inr rfl), ha, Or.inl rfl, Nat.add_le_add_left hle _⟩
  · rcases hr with ⟨rfl, -⟩ | ⟨n, e, hn, rfl⟩
    · exact ⟨b, Or.inr (Or.inl hb), hu, Or.inl rfl, le_rfl⟩
    · rw [e] at hb
      rcases List.mem_cons.mp hb with rfl | hb
      · -- the area that is taken in
        have ht := h.tiles_fill
        rw [e, List.append_assoc] at ht
        have hnext : b.addr = a.addr + QUEUESZ + a.size := ht.next
        exact ⟨_, Or.inl (Or.inr rfl), ha, Or.inr (by show a.addr + 3 * QUEUESZ ≤ _; omega),
          by show _ ≤ a.addr + (a.size + QUEUESZ + b.size); omega⟩
      · exact ⟨b, Or.inr (Or.inl hb), hu, Or.inl rfl, le_rfl⟩
  · exact ⟨b, Or.inr (Or.inr hb), hu, Or.inl rfl, le_rfl⟩

/-- The previous area takes in the one at the place. -/
theorem Heap.idle_prev (h : Heap cfg t m (c.fill [a]) G) (ha : a.st = .loose) {l : List HeapArea}
    (hl : l = c.left ∧ x = a ∨ ∃ n, c.left = l ++ [n] ∧ n.st = .free ∧
      x = ⟨n.addr, n.size + QUEUESZ + a.size, .loose⟩) (hz : Idle (areasOf (c.fill [a])) z) :
    Idle (areasOf (({ c with left := l }).fill [x])) z := by
  have hq : QUEUESZ = 8 := rfl
  have hmf : MIN_FRAGMENT = 16 := rfl
  refine hz.mono fun b hb hu => ?_
  rw [areasOf_fill] at hb ⊢
  simp only [List.mem_append, List.mem_singleton] at hb ⊢
  have hsame (hb : ((b ∈ areasOf c.before ∨ b ∈ l) ∨ b = x) ∨ b ∈ c.right ∨ b ∈ areasOf c.after) :
      ∃ y, (((y ∈ areasOf c.before ∨ y ∈ l) ∨ y = x) ∨ y ∈ c.right ∨ y ∈ areasOf c.after) ∧
        y.st ≠ .used ∧
        (y.addr = b.addr ∨ y.addr + 3 * QUEUESZ ≤ b.addr) ∧ b.addr + b.size ≤ y.addr + y.size :=
    ⟨b, hb, hu, Or.inl rfl, le_rfl⟩
  rcases hl with ⟨rfl, rfl⟩ | ⟨n, e, hn, rfl⟩
  · exact hsame hb
  · have ht := h.tiles_fill
    rw [e, List.append_assoc, List.append_assoc] at ht
    have hnext : a.addr = n.addr + QUEUESZ + n.size := ht.next
    rw [e] at hb
    simp only [List.mem_append, List.mem_singleton] at hb
    rcases hb with ((hb | hb | rfl) | rfl) | hb
    · exact hsame (Or.inl (Or.inl (Or.inl hb)))
    · exact hsame (Or.inl (Or.inl (Or.inr hb)))
    · exact ⟨_, Or.inl (Or.inr rfl), nofun, Or.inl rfl, by
        show _ ≤ b.addr + (b.size + QUEUESZ + a.size); omega⟩
    · -- the area at the place
      have hnmem : n ∈ areasOf (c.fill [b]) := by
        rw [areasOf_fill, e]
        simp
      have hsize := (h.sizes n hnmem).1
      exact ⟨_, Or.inl (Or.inr rfl), nofun, Or.inr (by show n.addr + 3 * QUEUESZ ≤ _; omega),
        by show _ ≤ n.addr + (n.size + QUEUESZ + b.size); omega⟩
    · exact hsame (Or.inr hb)

/-- A change of state does not matter, if the area does not come in use. -/
theorem idle_setState {st : AreaState} (hst : st ≠ .used) (hz : Idle (areasOf (c.fill [a])) z) :
    Idle (areasOf (c.fill [{ a with st := st }])) z := by
  refine hz.mono fun b hb hu => ?_
  rw [areasOf_fill] at hb ⊢
  simp only [List.mem_append, List.mem_singleton] at hb ⊢
  rcases hb with (hb | rfl) | hb
  · exact ⟨b, Or.inl (Or.inl hb), hu, Or.inl rfl, le_rfl⟩
  · exact ⟨_, Or.inl (Or.inr rfl), hst, Or.inl rfl, le_rfl⟩
  · exact ⟨b, Or.inr hb, hu, Or.inl rfl, le_rfl⟩

/-- An area that comes out of use. -/
theorem Heap.clrUsed_retired (h : Heap cfg t m (c.fill [a]) G) (ok : CfgOk cfg t)
    (hu : a.st = .used) (hz : Retired cfg.bits m (areasOf (c.fill [a])) z ∨ z = a.addr) :
    Retired cfg.bits (clrAreaFlag m a.addr AREA_USE) (areasOf (c.fill [{ a with st := .loose }]))
      z := by
  have h₁ := h.clrUsed ok hu
  rcases hz with r | rfl
  · have hne : z ≠ a.addr := by
      obtain ⟨b, hb, hub, hfirst, hlt⟩ := r.idle
      have hq : QUEUESZ = 8 := rfl
      rcases h.area_eq_or_apart hb (mem_fill (List.mem_singleton.mpr rfl)) with rfl | hab | hab
      · exact absurd hu hub
      · omega
      · omega
    refine ⟨idle_setState (by decide) r.idle, ?_⟩
    have hframe : clrAreaFlag m a.addr AREA_USE z = m z := by
      unfold clrAreaFlag
      rw [setPrev_apply, if_neg hne]
    rw [tagAt_eq_of_eq hframe]
    exact r.unused
  · have htag : tagAt cfg.bits (clrAreaFlag m a.addr AREA_USE) a.addr = _ := h₁.tag_fill
    have h2 := ok.top_even
    have hlt : a.addr < a.addr + QUEUESZ + a.size := by
      have hq : QUEUESZ = 8 := rfl
      omega
    refine ⟨⟨_, mem_fill (List.mem_singleton.mpr rfl), nofun, Or.inl rfl, hlt⟩, ?_⟩
    rw [htag]
    show ((if a.addr = c.base then t.top else 0) + 0) &&& 1 = 0
    rw [Nat.and_one_is_mod]
    split_ifs <;> omega

theorem Heap.put_retired (h : Heap cfg t m (c.fill [a]) G) (ok : CfgOk cfg t) (ha : a.st = .loose)
    (r : Retired cfg.bits m (areasOf (c.fill [a])) z) :
    Retired cfg.bits (appendFreeArea cfg m a.addr) (areasOf (c.fill [{ a with st := .free }]))
      z := by
  obtain ⟨-, -, hframe⟩ := h.put ok ha
  obtain ⟨h₁, h₂⟩ := h.idle_ne (mem_fill (List.mem_singleton.mpr rfl)) r.idle
  refine ⟨idle_setState (by decide) r.idle, ?_⟩
  rw [tagAt_eq_of_eq (hframe z (h.idle_node ok r.idle) h₁ h₂)]
  exact r.unused

end SmpTKernel
