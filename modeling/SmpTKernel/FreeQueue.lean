import SmpTKernel.AreaQueue
import SmpTKernel.Lib.Buckets

/-!
# The queue of free areas

`freeque` as buckets of areas of one size. The search from either end finds the first bucket whose
areas are large enough, registration puts an area into the bucket of its size, and an area that is
removed hands its bucket on to the next of the same size.
-/

namespace SmpTKernel

open LinkRing

/-- The size of the free area with this cell in `freeque`. -/
def sizeAt (m : Mem) (fq : ℕ) : ℕ := (m (fq - QUEUESZ)).next - fq

/-- `freeque` holds the buckets `G`. -/
abbrev FreeQueue (cfg : AreaCfg) (m : Mem) (G : List (ℕ × List ℕ)) : Prop :=
  Buckets (· + QUEUESZ) (sizeAt m) cfg.freeque m G

/-- The entries `L` of `freeque`: cells behind those of their areas, apart and in ascending order of
size. -/
structure FreeOrder (cfg : AreaCfg) (m : Mem) (L : List ℕ) : Prop where
  ring : IsRing m cfg.freeque L
  sorted : (L.map (freeSize cfg m)).Pairwise (· < ·)
  apart : L.Pairwise fun x y => x + QUEUESZ ≤ y ∨ y + QUEUESZ ≤ x
  inside : ∀ x ∈ L, QUEUESZ ≤ x ∧ x + QUEUESZ ≤ 2 ^ 32

variable {cfg : AreaCfg} {m : Mem} {G : List (ℕ × List ℕ)} {blksz : ℤ} {L : List ℕ}

/-- Cells that do not overlap are at most as many as the address space has. -/
theorem length_le_cells (apart : L.Pairwise fun x y => x + QUEUESZ ≤ y ∨ y + QUEUESZ ≤ x)
    (inside : ∀ x ∈ L, x + QUEUESZ ≤ 2 ^ 32) : L.length ≤ CELLS := by
  have hq : QUEUESZ = 8 := rfl
  have hnd : (L.map (· / 8)).Nodup := List.pairwise_map.mpr (apart.imp fun h => by omega)
  have hsub : L.map (· / 8) ⊆ List.range CELLS := by
    intro k hk
    obtain ⟨x, hx, rfl⟩ := List.mem_map.mp hk
    have := inside x hx
    rw [List.mem_range]
    show x / 8 < 2 ^ 29
    omega
  have hlen := (List.subperm_of_subset hnd hsub).length_le
  rwa [List.length_map, List.length_range] at hlen

theorem FreeOrder.length_lt (o : FreeOrder cfg m L) : L.length < CELLS := by
  have hq : QUEUESZ = 8 := rfl
  -- there is a cell at 0 as well
  refine length_le_cells (L := 0 :: L) (List.pairwise_cons.mpr ⟨fun x hx => Or.inl ?_, o.apart⟩)
    (List.forall_mem_cons.mpr ⟨by omega, fun x hx => (o.inside x hx).2⟩)
  have := (o.inside x hx).1
  omega

/-! ## Search -/

section Search

variable (r : IsRing m cfg.freeque L) (hs : (L.map (freeSize cfg m)).Pairwise (· < ·))

include r hs

theorem searchFromSmaller_eq {fuel : ℕ} : ∀ {a b : List ℕ}, L = a ++ b →
    (∀ x ∈ a, freeSize cfg m x < blksz) → b.length < fuel →
    ∃ a' b', L = a' ++ b' ∧ (∀ x ∈ a', freeSize cfg m x < blksz) ∧
      (∀ x ∈ b', blksz ≤ freeSize cfg m x) ∧
      searchFromSmaller cfg m blksz fuel (a.getLastD cfg.freeque) = b'.headD cfg.freeque := by
  induction fuel with
  | zero => exact fun _ _ hf => absurd hf (Nat.not_lt_zero _)
  | succ fuel ih =>
    intro a b e ha hf
    have hn : (m (a.getLastD cfg.freeque)).next = b.headD cfg.freeque := (e ▸ r).linked.1
    rw [searchFromSmaller]
    simp only [hn]
    cases b with
    | nil =>
      refine ⟨a, [], e, ha, fun x hx => absurd hx List.not_mem_nil, ?_⟩
      rw [List.headD_nil, if_neg (fun h => h rfl)]
    | cons q b =>
      have hq : q ∈ L := e ▸ List.mem_append_right a List.mem_cons_self
      have hne : q ≠ cfg.freeque := fun c => (List.nodup_cons.mp r.nodup).1 (c ▸ hq)
      rw [List.headD_cons, if_pos hne]
      by_cases hlarge : freeSize cfg m q ≥ blksz
      · -- the others are larger still
        refine ⟨a, q :: b, e, ha, fun x hx => ?_, if_pos hlarge⟩
        rcases List.mem_cons.mp hx with rfl | hx
        · exact hlarge
        · rw [e, List.map_append, List.pairwise_append, List.map_cons, List.pairwise_cons] at hs
          exact hlarge.le.trans (hs.2.1.1 _ (List.mem_map.mpr ⟨x, hx, rfl⟩)).le
      · rw [if_neg hlarge]
        have e' : L = (a ++ [q]) ++ b := by rw [e, List.append_assoc]; rfl
        have ha' : ∀ x ∈ a ++ [q], freeSize cfg m x < blksz := by
          intro x hx
          rcases List.mem_append.mp hx with hx | hx
          · exact ha x hx
          · rw [List.mem_singleton.mp hx]
            exact not_le.mp hlarge
        have h := ih e' ha' (Nat.lt_of_succ_lt_succ hf)
        rwa [List.getLastD_concat] at h

theorem searchFromLarger_eq {fuel : ℕ} : ∀ {a b : List ℕ} {fsz : ℤ}, L = a ++ b →
    (∀ x ∈ b, blksz < freeSize cfg m x) → fsz = (b.head?.map (freeSize cfg m)).getD 0 →
    a.length < fuel →
    ∃ a' b', L = a' ++ b' ∧ (∀ x ∈ a', freeSize cfg m x < blksz) ∧
      (∀ x ∈ b', blksz ≤ freeSize cfg m x) ∧
      searchFromLarger cfg m blksz fuel (b.headD cfg.freeque) fsz = b'.headD cfg.freeque := by
  induction fuel with
  | zero => exact fun _ _ _ hf => absurd hf (Nat.not_lt_zero _)
  | succ fuel ih =>
    intro a b fsz e hb hfsz hf
    have hp : (m (b.headD cfg.freeque)).prev = a.getLastD cfg.freeque := (e ▸ r).linked.2
    have hn : (m (a.getLastD cfg.freeque)).next = b.headD cfg.freeque := (e ▸ r).linked.1
    rw [searchFromLarger]
    simp only [hp]
    rcases List.eq_nil_or_concat' a with rfl | ⟨a, q, rfl⟩
    · -- the end of the queue: everything is larger, or the queue is empty
      rw [List.getLastD_nil] at hn
      refine ⟨[], b, e, fun x hx => absurd hx List.not_mem_nil, fun x hx => (hb x hx).le, ?_⟩
      rw [List.getLastD_nil, if_neg (fun h => h rfl), hn]
      cases b with
      | nil => exact ite_self _
      | cons x b =>
        rw [if_pos]
        rw [hfsz]
        exact (hb x List.mem_cons_self).le
    · have hq : q ∈ L := e ▸ List.mem_append_left b (List.mem_append_right a List.mem_cons_self)
      have hne : q ≠ cfg.freeque := fun c => (List.nodup_cons.mp r.nodup).1 (c ▸ hq)
      rw [List.getLastD_concat] at hn
      rw [List.getLastD_concat, if_pos hne]
      have hlow (x : ℕ) (hx : x ∈ a) : freeSize cfg m x < freeSize cfg m q := by
        rw [e, List.append_assoc, List.map_append, List.pairwise_append] at hs
        exact hs.2.2 _ (List.mem_map.mpr ⟨x, hx, rfl⟩) _
          (List.mem_map.mpr ⟨q, List.mem_append_left b (List.mem_singleton.mpr rfl), rfl⟩)
      have e' : L = a ++ q :: b := by rw [e, List.append_assoc]; rfl
      by_cases hle : freeSize cfg m q ≤ blksz
      · rw [if_pos hle]
        by_cases hlt : freeSize cfg m q < blksz
        · refine ⟨a ++ [q], b, e, fun x hx => ?_, fun x hx => (hb x hx).le, by rw [if_pos hlt, hn]⟩
          rcases List.mem_append.mp hx with hx | hx
          · exact (hlow x hx).trans hlt
          · rwa [List.mem_singleton.mp hx]
        · refine ⟨a, q :: b, e', fun x hx => (hlow x hx).trans_le hle, fun x hx => ?_, by
            rw [if_neg hlt]; rfl⟩
          rcases List.mem_cons.mp hx with rfl | hx
          · exact not_lt.mp hlt
          · exact (hb x hx).le
      · rw [if_neg hle]
        refine ih e' (fun x hx => ?_) rfl ?_
        · rcases List.mem_cons.mp hx with rfl | hx
          · exact not_le.mp hle
          · exact hb x hx
        · rw [List.length_append, List.length_singleton] at hf
          omega

end Search

/-- **Search**, from either end: the first area that is large enough, or `freeque`. -/
theorem FreeOrder.search (o : FreeOrder cfg m L) (blksz : ℤ) :
    ∃ a b, L = a ++ b ∧ (∀ x ∈ a, freeSize cfg m x < blksz) ∧ (∀ x ∈ b, blksz ≤ freeSize cfg m x) ∧
      searchFreeArea cfg m blksz = b.headD cfg.freeque := by
  unfold searchFreeArea
  by_cases hq : blksz > cfg.quarter
  · rw [if_pos hq]
    exact @searchFromLarger_eq cfg m blksz L o.ring o.sorted CELLS L [] 0 (List.append_nil L).symm
      (fun x hx => absurd hx List.not_mem_nil) rfl o.length_lt
  · rw [if_neg hq]
    exact @searchFromSmaller_eq cfg m blksz L o.ring o.sorted CELLS [] L rfl (fun x hx =>
      absurd hx List.not_mem_nil) o.length_lt

/-- **Search** in the buckets: the leader of the first one that is large enough, or `freeque`. -/
theorem searchFreeArea_eq (blksz : ℤ) (o : FreeOrder cfg m (G.map Prod.fst))
    (hsize : ∀ x ∈ members G, freeSize cfg m x = sizeAt m x) :
    ∃ A B, G = A ++ B ∧ (∀ g ∈ A, (sizeAt m g.1 : ℤ) < blksz) ∧ (∀ g ∈ B, blksz ≤ sizeAt m g.1) ∧
      searchFreeArea cfg m blksz = (B.map Prod.fst).headD cfg.freeque := by
  have hsz (g : ℕ × List ℕ) (hg : g ∈ G) : freeSize cfg m g.1 = sizeAt m g.1 :=
    hsize g.1 (mem_nodes.mpr ⟨g, hg, List.mem_cons_self⟩)
  obtain ⟨a, b', e, ha, hb, hres⟩ := o.search blksz
  obtain ⟨A, B, rfl, rfl, rfl⟩ := List.map_eq_append_iff.mp e
  refine ⟨A, B, rfl, fun g hg => ?_, fun g hg => ?_, hres⟩
  · rw [← hsz g (List.mem_append_left B hg)]
    exact ha g.1 (List.mem_map.mpr ⟨g, hg, rfl⟩)
  · rw [← hsz g (List.mem_append_right A hg)]
    exact hb g.1 (List.mem_map.mpr ⟨g, hg, rfl⟩)

/-! ## Removal -/

variable {fq z : ℕ}

theorem isQueEmpty_sub {A B : List (ℕ × List ℕ)} {g : ℕ} {l : List ℕ}
    (b : FreeQueue cfg m (A ++ (g, l) :: B)) : isQueEmpty (g + QUEUESZ) m = true ↔ l = [] := by
  have R := b.rings.perm (queueRings_perm (· + QUEUESZ) cfg.freeque A (g, l) B)
  rw [decide_eq_true_eq]
  exact R.head.next_eq_self_iff

theorem isQueEmpty_sub_follower {A B : List (ℕ × List ℕ)} {g e : ℕ} {c d : List ℕ}
    (b : FreeQueue cfg m (A ++ (g, c ++ e :: d) :: B)) : isQueEmpty (e + QUEUESZ) m = true := by
  have R := b.rings.perm (queueRings_perm (· + QUEUESZ) cfg.freeque A (g, c ++ e :: d) B)
  have hmem : (e + QUEUESZ, ([] : List ℕ)) ∈ bucketRings (· + QUEUESZ) (g, c ++ e :: d) :=
    List.mem_cons_of_mem _ (List.mem_map.mpr ⟨e, List.mem_append_right c List.mem_cons_self, rfl⟩)
  rw [decide_eq_true_eq]
  exact (R.ring _ (List.mem_append_left _ hmem)).next_head

/-- **Removal.** The area leaves the queue, the others stay, and nothing else is written. -/
theorem removeFreeQue_spec (b : FreeQueue cfg m G) (hx : fq ∈ members G) :
    ∃ G', Buckets (· + QUEUESZ) (sizeAt m) cfg.freeque (removeFreeQue m fq) G' ∧
      (members G).Perm (fq :: members G') ∧
      ∀ z, z ∉ nodes (queueRings (· + QUEUESZ) cfg.freeque G) → removeFreeQue m fq z = m z := by
  obtain ⟨⟨g, l⟩, hg, hgl⟩ := mem_nodes.mp hx
  obtain ⟨A, B, rfl⟩ := List.append_of_mem hg
  have hperm {k k' : List ℕ} (h : k.Perm (fq :: k')) :
      (members A ++ (k ++ members B)).Perm (fq :: (members A ++ (k' ++ members B))) :=
    ((h.append_right (members B)).append_left (members A)).trans List.perm_middle
  simp only [members_append, members_cons]
  rcases List.mem_cons.mp hgl with rfl | hl
  · have hempty := isQueEmpty_sub b
    cases l with
    | nil =>
      -- alone in its bucket
      have e : removeFreeQue m fq = queRemove fq m := by
        unfold removeFreeQue
        rw [hempty.mpr rfl]
        rfl
      rw [e]
      refine ⟨A ++ B, b.removeLeader, ?_, fun z hz => b.removeLeader_frame hz⟩
      rw [members_append]
      exact List.perm_middle
    | cons x l =>
      -- the next area of this size leads
      have hnx : (m (fq + QUEUESZ)).next = x := by
        have R := b.rings.perm (queueRings_perm (· + QUEUESZ) cfg.freeque A (fq, x :: l) B)
        exact R.head.next_head
      have hne : isQueEmpty (fq + QUEUESZ) m = false := by
        rw [Bool.eq_false_iff]
        exact fun h => List.cons_ne_nil x l (hempty.mp h)
      have e : removeFreeQue m fq =
          unlink fq (insertBefore x fq (promote (fq + QUEUESZ) (x + QUEUESZ) x m)) := by
        unfold removeFreeQue
        simp only [hne, hnx]
        rfl
      rw [e]
      refine ⟨A ++ (x, l) :: B, b.removePromote, ?_, fun z hz => b.removePromote_frame hz⟩
      rw [members_append, members_cons]
      exact hperm (List.Perm.refl _)
  · -- behind the leader
    obtain ⟨c, d, rfl⟩ := List.append_of_mem hl
    have e : removeFreeQue m fq = queRemove fq m := by
      unfold removeFreeQue
      rw [isQueEmpty_sub_follower b]
      rfl
    rw [e]
    refine ⟨A ++ (g, c ++ d) :: B, b.removeFollower, ?_, fun z hz => b.removeFollower_frame hz⟩
    rw [members_append, members_cons]
    exact hperm ((List.perm_middle.cons g).trans (List.Perm.swap _ _ _))

/-! ## Registration -/

/-- **Registration.** The area comes into the bucket of its size, and nothing else is written. -/
theorem registerFree_spec (b : FreeQueue cfg m G)
    (o : FreeOrder cfg m (G.map Prod.fst)) (hsize : ∀ x ∈ members G, freeSize cfg m x = sizeAt m x)
    (hx : fq ∉ nodes (queueRings (· + QUEUESZ) cfg.freeque G))
    (hsx : fq + QUEUESZ ∉ nodes (queueRings (· + QUEUESZ) cfg.freeque G)) :
    let q := searchFreeArea cfg m (sizeAt m fq)
    let m' := queInit (fq + QUEUESZ)
      (if q ≠ cfg.freeque ∧ freeSize cfg m q = sizeAt m fq then queInsert fq (q + QUEUESZ) m
        else queInsert fq q m)
    ∃ G', Buckets (· + QUEUESZ) (sizeAt m) cfg.freeque m' G' ∧ (members G').Perm (fq :: members G) ∧
      ∀ z, z ∉ nodes (queueRings (· + QUEUESZ) cfg.freeque G) → z ≠ fq → z ≠ fq + QUEUESZ →
        m' z = m z := by
  intro q m'
  have hne : fq + QUEUESZ ≠ fq := by
    have hq : QUEUESZ = 8 := rfl
    omega
  obtain ⟨A, B, rfl, hA, hB, hq⟩ := searchFreeArea_eq (sizeAt m fq) o hsize
  have hA' : ∀ a ∈ A, sizeAt m a.1 < sizeAt m fq := fun a ha => Int.ofNat_lt.mp (hA a ha)
  have hq : q = (B.map Prod.fst).headD cfg.freeque := hq
  cases B with
  | nil =>
    -- the largest
    have e : m' = single (fq + QUEUESZ) (insertBefore fq q m) := by
      show queInit _ (if _ then _ else _) = _
      rw [if_neg fun h => h.1 hq]
    have hlead := b.addLeader hx hsx hne hA' fun _ hb => absurd hb List.not_mem_nil
    rw [e, hq]
    refine ⟨A ++ [(fq, [])], hlead, ?_, fun z hz h₁ h₂ => b.addLeader_frame hx hz h₁ h₂⟩
    rw [members_append, members_append]
    exact List.perm_middle
  | cons g B =>
    have hg : g.1 ∈ members (A ++ g :: B) :=
      mem_nodes.mpr ⟨g, List.mem_append_right A List.mem_cons_self, List.mem_cons_self⟩
    have hne' : q ≠ cfg.freeque := by
      rw [hq]
      intro c
      have hnd := (List.nodup_cons.mp b.rings.head.nodup).1
      exact hnd (List.mem_map.mpr ⟨g, List.mem_append_right A List.mem_cons_self, c⟩)
    have hsz : freeSize cfg m q = sizeAt m g.1 := by
      rw [hq]
      exact hsize g.1 hg
    by_cases hsame : sizeAt m g.1 = sizeAt m fq
    · -- another of this size
      have e : m' = single (fq + QUEUESZ) (insertBefore fq (g.1 + QUEUESZ) m) := by
        show queInit _ (if _ then _ else _) = _
        rw [if_pos ⟨hne', by rw [hsz, hsame]⟩, hq]
        rfl
      have hfol := b.addFollower (g := g.1) (l := g.2) hx hsx hne hsame.symm
      rw [e]
      refine ⟨A ++ (g.1, g.2 ++ [fq]) :: B, hfol, ?_,
        fun z hz h₁ h₂ => b.addFollower_frame (g := g.1) (l := g.2) hx hz h₁ h₂⟩
      rw [members_append, members_append, members_cons, members_cons]
      have hp : (g.1 :: (g.2 ++ [fq]) ++ members B).Perm (fq :: (g.1 :: g.2 ++ members B)) :=
        (List.perm_append_singleton fq (g.1 :: g.2)).append_right (members B)
      exact (hp.append_left (members A)).trans List.perm_middle
    · -- a size of its own
      have e : m' = single (fq + QUEUESZ) (insertBefore fq q m) := by
        show queInit _ (if _ then _ else _) = _
        rw [if_neg]
        rintro ⟨-, h⟩
        rw [hsz] at h
        exact hsame (Int.ofNat_inj.mp h)
      have hB' : ∀ b ∈ g :: B, sizeAt m fq < sizeAt m b.1 := by
        intro b' hb'
        have h₁ : sizeAt m fq ≤ sizeAt m g.1 := Int.ofNat_le.mp (hB g List.mem_cons_self)
        rcases List.mem_cons.mp hb' with rfl | hb'
        · omega
        · have hs := b.sorted
          rw [List.map_append, List.pairwise_append, List.map_cons, List.pairwise_cons] at hs
          have := hs.2.1.1 _ (List.mem_map.mpr ⟨b', hb', rfl⟩)
          omega
      have hlead := b.addLeader hx hsx hne hA' hB'
      rw [e, hq]
      refine ⟨A ++ (fq, []) :: g :: B, hlead, ?_, fun z hz h₁ h₂ => b.addLeader_frame hx hz h₁ h₂⟩
      rw [members_append, members_append]
      exact List.perm_middle

end SmpTKernel
