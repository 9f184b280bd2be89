import SmpTKernel.Lib.RingSets
import Mathlib.Data.List.Perm.Subperm
import Mathlib.Order.Basic

/-!
# Buckets

A queue sorted by key in which one member of each key, the leader, is linked in a ring in ascending
order and the others hang in a ring at the leader. Every member `x` has two cells, `x` itself and
`sub x`, which is the head of the ring of `x` when `x` leads. The rings are given as the list of the
leaders with their followers.
-/

namespace LinkRing

variable {N K : Type*}

/-- The rings of one bucket: the followers at the leader's second cell, and the second cells of the
followers, which are heads of empty rings. -/
def bucketRings (sub : N → N) (g : N × List N) : List (N × List N) :=
  (sub g.1, g.2) :: g.2.map fun x => (sub x, [])

/-- The rings of all buckets and the ring of the leaders. -/
def queueRings (sub : N → N) (head : N) (G : List (N × List N)) : List (N × List N) :=
  (head, G.map Prod.fst) :: G.flatMap (bucketRings sub)

/-- Everything in the queue, leaders before their followers. -/
def members (G : List (N × List N)) : List N := nodes G

/-- The queue of buckets `G` in ascending order of the keys. -/
structure Buckets [LT K] (sub : N → N) (key : N → K) (head : N) (m : Links N)
    (G : List (N × List N)) : Prop where
  rings : RingSet m (queueRings sub head G)
  sorted : (G.map fun g => key g.1).Pairwise (· < ·)
  same : ∀ g ∈ G, ∀ x ∈ g.2, key x = key g.1

variable [LT K] {sub : N → N} {key : N → K} {head : N} {m m' : Links N} {G A B : List (N × List N)}
  {e x z : N} {l c d : List N}

/-! ## Nodes -/

theorem mem_nodes_bucketRings {g : N × List N} :
    z ∈ nodes (bucketRings sub g) ↔ z ∈ g.2 ∨ ∃ y ∈ g.1 :: g.2, z = sub y := by
  unfold bucketRings
  simp only [nodes_cons, List.cons_append, List.mem_cons, List.mem_append, mem_nodes, List.mem_map]
  constructor
  · rintro (rfl | h | ⟨r, ⟨y, hy, rfl⟩, hz⟩)
    · exact Or.inr ⟨g.1, Or.inl rfl, rfl⟩
    · exact Or.inl h
    · exact Or.inr ⟨y, Or.inr hy, by simpa using hz⟩
  · rintro (h | ⟨y, rfl | hy, rfl⟩)
    · exact Or.inr (Or.inl h)
    · exact Or.inl rfl
    · exact Or.inr (Or.inr ⟨_, ⟨y, hy, rfl⟩, Or.inl rfl⟩)

/-- The nodes of the queue: the head and both cells of every member. -/
theorem mem_nodes_queueRings :
    z ∈ nodes (queueRings sub head G) ↔ z = head ∨ z ∈ members G ∨ ∃ y ∈ members G, z = sub y := by
  have hb : z ∈ nodes (G.flatMap (bucketRings sub)) ↔
      ∃ g ∈ G, z ∈ g.2 ∨ ∃ y ∈ g.1 :: g.2, z = sub y := by
    simp only [mem_nodes, List.mem_flatMap]
    constructor
    · rintro ⟨r, ⟨g, hg, hr⟩, hz⟩
      exact ⟨g, hg, mem_nodes_bucketRings.mp (mem_nodes.mpr ⟨r, hr, hz⟩)⟩
    · rintro ⟨g, hg, hz⟩
      obtain ⟨r, hr, hz⟩ := mem_nodes.mp (mem_nodes_bucketRings.mpr hz)
      exact ⟨r, ⟨g, hg, hr⟩, hz⟩
  rw [queueRings, nodes_cons, List.mem_append, hb, List.mem_cons, List.mem_map]
  unfold members
  simp only [mem_nodes, List.mem_cons]
  constructor
  · rintro ((rfl | ⟨g, hg, rfl⟩) | ⟨g, hg, h | ⟨y, hy, rfl⟩⟩)
    · exact Or.inl rfl
    · exact Or.inr (Or.inl ⟨g, hg, Or.inl rfl⟩)
    · exact Or.inr (Or.inl ⟨g, hg, Or.inr h⟩)
    · exact Or.inr (Or.inr ⟨y, ⟨g, hg, hy⟩, rfl⟩)
  · rintro (rfl | ⟨g, hg, rfl | h⟩ | ⟨y, ⟨g, hg, hy⟩, rfl⟩)
    · exact Or.inl (Or.inl rfl)
    · exact Or.inl (Or.inr ⟨g, hg, rfl⟩)
    · exact Or.inr ⟨g, hg, Or.inl h⟩
    · exact Or.inr ⟨g, hg, Or.inr ⟨y, hy, rfl⟩⟩

theorem members_append (A B : List (N × List N)) : members (A ++ B) = members A ++ members B :=
  nodes_append A B

theorem members_cons (g : N × List N) (B : List (N × List N)) :
    members (g :: B) = g.1 :: g.2 ++ members B := rfl

/-- The rings with those of one bucket in front. -/
theorem queueRings_perm (sub : N → N) (head : N) (A : List (N × List N)) (g : N × List N)
    (B : List (N × List N)) :
    (queueRings sub head (A ++ g :: B)).Perm
      (bucketRings sub g ++
        (head, A.map Prod.fst ++ g.1 :: B.map Prod.fst) :: (A ++ B).flatMap (bucketRings sub)) := by
  unfold queueRings
  rw [List.map_append, List.map_cons, List.flatMap_append, List.flatMap_cons, List.flatMap_append]
  set hd := (head, A.map Prod.fst ++ g.1 :: B.map Prod.fst)
  calc (hd :: (A.flatMap (bucketRings sub) ++
    (bucketRings sub g ++ B.flatMap (bucketRings sub)))).Perm
        (hd :: (bucketRings sub g ++ (A.flatMap (bucketRings sub) ++
          B.flatMap (bucketRings sub)))) := by
        refine List.Perm.cons hd ?_
        rw [← List.append_assoc, ← List.append_assoc]
        exact List.perm_append_comm.append_right _
    _ |>.Perm _ := List.perm_middle.symm

theorem Buckets.congr (b : Buckets sub key head m G) {key' : N → K}
    (hm : ∀ x ∈ nodes (queueRings sub head G), m' x = m x) (hk : ∀ x ∈ members G, key' x = key x) :
    Buckets sub key' head m' G := by
  have hg (g : N × List N) (hg : g ∈ G) (x : N) (hx : x ∈ g.1 :: g.2) : key' x = key x :=
    hk x (mem_nodes.mpr ⟨g, hg, hx⟩)
  refine ⟨b.rings.congr hm, ?_, fun g h x hx => ?_⟩
  · rw [List.map_congr_left fun g h => hg g h g.1 List.mem_cons_self]
    exact b.sorted
  · rw [hg g h x (List.mem_cons_of_mem _ hx), hg g h g.1 List.mem_cons_self]
    exact b.same g h x hx

/-- Nothing is in the queue twice. -/
theorem Buckets.nodup (b : Buckets sub key head m G) : (members G).Nodup := by
  have hn := b.rings.nodup
  have hsub : (members G).Subperm (nodes (queueRings sub head G)) := by
    have hperm :
        ∀ G : List (N × List N), (members G).Perm (G.map Prod.fst ++ G.flatMap Prod.snd) := by
      intro G
      induction G with
      | nil => exact List.Perm.refl _
      | cons g G ih =>
        rw [members_cons, List.map_cons, List.flatMap_cons, List.cons_append, List.cons_append]
        refine List.Perm.cons _ ((ih.append_left g.2).trans ?_)
        rw [← List.append_assoc, ← List.append_assoc]
        exact List.perm_append_comm.append_right _
    have hfol : ∀ G : List (N × List N),
        (G.flatMap Prod.snd).Sublist (nodes (G.flatMap (bucketRings sub))) := by
      intro G
      induction G with
      | nil => exact List.Sublist.refl _
      | cons g G ih =>
        rw [List.flatMap_cons, List.flatMap_cons, nodes_append, bucketRings, nodes_cons]
        refine List.Sublist.append ?_ ih
        exact (List.sublist_append_left g.2 _).trans (List.sublist_cons_self (sub g.1) _)
    refine (hperm G).subperm.trans (List.Sublist.subperm ?_)
    rw [queueRings, nodes_cons]
    exact ((List.sublist_cons_self head _).append (hfol G))
  obtain ⟨k, hk, hs⟩ := hsub
  exact hk.nodup_iff.mp (hs.nodup hn)

/-! ## Edits -/

omit [LT K] in
theorem queueRings_insert (sub : N → N) (head : N) (A : List (N × List N)) (g : N × List N)
    (B : List (N × List N)) :
    (bucketRings sub g ++
      (head, A.map Prod.fst ++ g.1 :: B.map Prod.fst) :: (A ++ B).flatMap (bucketRings sub)).Perm
      (queueRings sub head (A ++ g :: B)) :=
  (queueRings_perm sub head A g B).symm

theorem sorted_insert {g : N × List N} (h : ((A ++ B).map fun g => key g.1).Pairwise (· < ·))
    (hA : ∀ a ∈ A, key a.1 < key g.1) (hB : ∀ b ∈ B, key g.1 < key b.1) :
    ((A ++ g :: B).map fun g => key g.1).Pairwise (· < ·) := by
  rw [List.map_append, List.pairwise_append] at h
  rw [List.map_append, List.map_cons, List.pairwise_append, List.pairwise_cons]
  refine ⟨h.1, ⟨?_, h.2.1⟩, ?_⟩
  · intro k hk
    obtain ⟨b, hb, rfl⟩ := List.mem_map.mp hk
    exact hB b hb
  · intro k hk k' hk'
    rcases List.mem_cons.mp hk' with rfl | hk'
    · obtain ⟨a, ha, rfl⟩ := List.mem_map.mp hk
      exact hA a ha
    · exact h.2.2 k hk k' hk'

theorem sorted_remove {g : N × List N} (h : ((A ++ g :: B).map fun g => key g.1).Pairwise (· < ·)) :
    ((A ++ B).map fun g => key g.1).Pairwise (· < ·) :=
  h.sublist (((List.sublist_cons_self g B).append_left A).map _)

variable [DecidableEq N]

/-- A member with a key of its own becomes the leader of a new bucket. -/
theorem Buckets.addLeader (b : Buckets sub key head m (A ++ B))
    (he : e ∉ nodes (queueRings sub head (A ++ B)))
    (hse : sub e ∉ nodes (queueRings sub head (A ++ B))) (hne : sub e ≠ e)
    (hA : ∀ a ∈ A, key a.1 < key e) (hB : ∀ b ∈ B, key e < key b.1) :
    Buckets sub key head (single (sub e) (insertBefore e ((B.map Prod.fst).headD head) m))
      (A ++ (e, []) :: B) := by
  have R :
      RingSet m ((head, A.map Prod.fst ++ B.map Prod.fst) :: (A ++ B).flatMap
        (bucketRings sub)) := by
    have := b.rings
    rwa [queueRings, List.map_append] at this
  rw [queueRings, List.map_append] at he hse
  have R₁ := R.insertBefore he
  have hse₁ : sub e ∉ nodes ((head, A.map Prod.fst ++ e :: B.map Prod.fst) ::
      (A ++ B).flatMap (bucketRings sub)) := by
    intro hc
    refine hse ?_
    simp only [nodes_cons, List.cons_append, List.mem_cons, List.mem_append, hne, false_or] at hc ⊢
    exact hc
  refine ⟨(R₁.single hse₁).perm (queueRings_insert sub head A (e, []) B),
    sorted_insert b.sorted hA hB, fun g hg x hx => ?_⟩
  rcases List.mem_append.mp hg with hg | hg
  · exact b.same g (List.mem_append_left B hg) x hx
  · rcases List.mem_cons.mp hg with rfl | hg
    · exact absurd hx List.not_mem_nil
    · exact b.same g (List.mem_append_right A hg) x hx

/-- A member joins the bucket of its key. -/
theorem Buckets.addFollower {g : N} (b : Buckets sub key head m (A ++ (g, l) :: B))
    (he : e ∉ nodes (queueRings sub head (A ++ (g, l) :: B)))
    (hse : sub e ∉ nodes (queueRings sub head (A ++ (g, l) :: B))) (hne : sub e ≠ e)
    (hk : key e = key g) :
    Buckets sub key head (single (sub e) (insertBefore e (sub g) m)) (A ++ (g, l ++ [e]) :: B) := by
  have p := queueRings_perm sub head A (g, l) B
  have hp {z : N} : z ∈ nodes (queueRings sub head (A ++ (g, l) :: B)) ↔ z ∈ nodes _ :=
    (p.flatMap_right _).mem_iff
  rw [hp] at he hse
  have R := b.rings.perm p
  rw [bucketRings, List.cons_append, ← List.append_nil l] at R he hse
  have R₁ := R.insertBefore he
  have hse₁ := hse
  refine ⟨(R₁.single (fun hc => hse ?_)).perm ?_, ?_, fun g' hg x hx => ?_⟩
  · simp only [nodes_cons, List.cons_append, List.mem_cons, List.mem_append, List.append_nil,
      List.not_mem_nil, or_false, hne] at hc ⊢
    exact hc
  · refine List.Perm.trans ?_ (queueRings_insert sub head A (g, l ++ [e]) B)
    have hcells : (l ++ [e]).map (fun x => (sub x, ([] : List N))) =
        l.map (fun x => (sub x, [])) ++ [(sub e, [])] := List.map_append
    rw [bucketRings, hcells, List.append_nil, List.cons_append, List.append_assoc]
    exact (List.Perm.swap _ _ _).trans (List.perm_middle.symm.cons _)
  · have := b.sorted
    rwa [List.map_append, List.map_cons] at this ⊢
  · rcases List.mem_append.mp hg with hg | hg
    · exact b.same g' (List.mem_append_left _ hg) x hx
    · rcases List.mem_cons.mp hg with rfl | hg
      · rcases List.mem_append.mp hx with hx | hx
        · exact b.same (g, l) (List.mem_append_right A List.mem_cons_self) x hx
        · rw [List.mem_singleton.mp hx]
          exact hk
      · exact b.same g' (List.mem_append_right A (List.mem_cons_of_mem _ hg)) x hx

theorem Buckets.removeLeader (b : Buckets sub key head m (A ++ (e, []) :: B)) :
    Buckets sub key head (unlink e m) (A ++ B) := by
  have R := b.rings.perm (queueRings_perm sub head A (e, []) B)
  refine ⟨?_, sorted_remove b.sorted, fun g hg x hx => b.same g ?_ x hx⟩
  · rw [queueRings, List.map_append]
    exact R.tail.unlink
  · exact (List.Sublist.append_left (List.sublist_cons_self _ B) A).subset hg

/-- A leader leaves and its first follower leads the bucket. -/
theorem Buckets.removePromote (b : Buckets sub key head m (A ++ (e, x :: l) :: B)) :
    Buckets sub key head (unlink e (insertBefore x e (promote (sub e) (sub x) x m)))
      (A ++ (x, l) :: B) := by
  have hkx : key x = key e :=
    b.same (e, x :: l) (List.mem_append_right A List.mem_cons_self) x List.mem_cons_self
  have R := b.rings.perm (queueRings_perm sub head A (e, x :: l) B)
  rw [bucketRings, List.map_cons, List.cons_append, List.cons_append] at R
  -- the follower's own cell is no ring any more
  have R₀ := R.perm (List.Perm.swap _ _ _)
  have hsx : sub x ∉ nodes _ := fun hc => R₀.not_mem hc List.mem_cons_self
  have R₁ := R₀.tail.promote hsx
  have hx : x ∉ nodes ((sub x, l) :: (l.map (fun x => (sub x, [])) ++
      (head, A.map Prod.fst ++ e :: B.map Prod.fst) :: (A ++ B).flatMap (bucketRings sub))) := by
    have hn := R₀.nodup
    simp only [nodes_cons, List.cons_append, List.nodup_cons, List.mem_cons,
      List.mem_append, not_or, List.nil_append] at hn ⊢
    exact ⟨Ne.symm hn.1.2.1, hn.2.2.1.1, hn.2.2.1.2⟩
  have R₂ := R₁.perm (@List.perm_middle _ _ ((sub x, l) :: l.map fun x => (sub x, [])) _)
  have hx₂ : x ∉ nodes _ :=
    fun hc =>
      hx (((@List.perm_middle _ _ ((sub x, l) :: l.map fun x => (sub x, [])) _).flatMap_right
      _).mem_iff.mpr hc)
  have R₃ := R₂.insertBefore (b := e :: B.map Prod.fst) hx₂
  have hx₃ : A.map Prod.fst ++ x :: e :: B.map Prod.fst =
      (A.map Prod.fst ++ [x]) ++ e :: B.map Prod.fst := by rw [List.append_assoc]; rfl
  rw [List.headD_cons, hx₃] at R₃
  have R₄ := R₃.unlink
  refine ⟨(R₄.perm ?_).perm (queueRings_insert sub head A (x, l) B), ?_, fun g hg y hy => ?_⟩
  · rw [List.append_assoc, List.singleton_append]
    exact List.perm_middle.symm
  · have := b.sorted
    rw [List.map_append, List.map_cons] at this ⊢
    rwa [show key (x, l).1 = key (e, x :: l).1 from hkx]
  · rcases List.mem_append.mp hg with hg | hg
    · exact b.same g (List.mem_append_left _ hg) y hy
    · rcases List.mem_cons.mp hg with rfl | hg
      · exact (b.same (e, x :: l) (List.mem_append_right A List.mem_cons_self) y
          (List.mem_cons_of_mem x hy)).trans hkx.symm
      · exact b.same g (List.mem_append_right A (List.mem_cons_of_mem _ hg)) y hy

theorem Buckets.removeFollower {g : N} (b : Buckets sub key head m (A ++ (g, c ++ e :: d) :: B)) :
    Buckets sub key head (unlink e m) (A ++ (g, c ++ d) :: B) := by
  have R := b.rings.perm (queueRings_perm sub head A (g, c ++ e :: d) B)
  rw [bucketRings, List.cons_append] at R
  have R₁ := R.unlink
  refine ⟨?_, ?_, fun g' hg x hx => ?_⟩
  · -- the cell of the follower is dropped
    have p : ((c ++ e :: d).map fun x => (sub x, ([] : List N))).Perm
        ((sub e, []) :: (c ++ d).map fun x => (sub x, [])) :=
      (@List.perm_middle _ e c d).map fun x => (sub x, ([] : List N))
    have R₂ := (R₁.perm ((p.append_right _).cons _)).perm (List.Perm.swap _ _ _)
    exact R₂.tail.perm (queueRings_insert sub head A (g, c ++ d) B)
  · have := b.sorted
    rwa [List.map_append, List.map_cons] at this ⊢
  · rcases List.mem_append.mp hg with hg | hg
    · exact b.same g' (List.mem_append_left _ hg) x hx
    · rcases List.mem_cons.mp hg with rfl | hg
      · refine b.same (g, c ++ e :: d) (List.mem_append_right A List.mem_cons_self) x ?_
        exact (List.Sublist.append_left (List.sublist_cons_self e d) c).subset hx
      · exact b.same g' (List.mem_append_right A (List.mem_cons_of_mem _ hg)) x hx

/-! ## What the edits leave alone -/

omit [LT K] [DecidableEq N] in
theorem not_mem_head_ring {g : N × List N} (hz : z ∉ nodes (queueRings sub head (A ++ g :: B))) :
    z ∉ head :: (A.map Prod.fst ++ g.1 :: B.map Prod.fst) ∧ z ∉ sub g.1 :: g.2 ∧
      ∀ y ∈ g.2, z ≠ sub y := by
  rw [mem_nodes_queueRings, members_append, members_cons] at hz
  simp only [not_or, not_exists, not_and, List.mem_append, List.mem_cons] at hz
  obtain ⟨h₁, ⟨hA, hg, hB⟩, hs⟩ := hz
  refine ⟨?_, ?_, fun y hy => hs y (Or.inr (Or.inl (Or.inr hy)))⟩
  · intro hc
    rcases List.mem_cons.mp hc with hc | hc
    · exact h₁ hc
    · rcases List.mem_append.mp hc with hc | hc
      · obtain ⟨a, ha, rfl⟩ := List.mem_map.mp hc
        exact hA (mem_nodes.mpr ⟨a, ha, List.mem_cons_self⟩)
      · rcases List.mem_cons.mp hc with hc | hc
        · exact hg.1 hc
        · obtain ⟨a, ha, rfl⟩ := List.mem_map.mp hc
          exact hB (mem_nodes.mpr ⟨a, ha, List.mem_cons_self⟩)
  · intro hc
    rcases List.mem_cons.mp hc with hc | hc
    · exact hs g.1 (Or.inr (Or.inl (Or.inl rfl))) hc
    · exact hg.2 hc

theorem Buckets.addLeader_frame (b : Buckets sub key head m (A ++ B))
    (he : e ∉ nodes (queueRings sub head (A ++ B))) (hz : z ∉ nodes (queueRings sub head (A ++ B)))
    (hze : z ≠ e) (hzs : z ≠ sub e) :
    single (sub e) (insertBefore e ((B.map Prod.fst).headD head) m) z = m z := by
  have r : IsRing m head (A.map Prod.fst ++ B.map Prod.fst) := by
    have := b.rings.head
    rwa [List.map_append] at this
  rw [queueRings, nodes_cons, List.map_append] at he hz
  rw [single_apply_of_ne hzs]
  exact r.insertBefore_frame (fun hc => he (List.mem_append_left _ hc))
    (fun hc => hz (List.mem_append_left _ hc)) hze

theorem Buckets.addFollower_frame {g : N} (b : Buckets sub key head m (A ++ (g, l) :: B))
    (he : e ∉ nodes (queueRings sub head (A ++ (g, l) :: B)))
    (hz : z ∉ nodes (queueRings sub head (A ++ (g, l) :: B))) (hze : z ≠ e) (hzs : z ≠ sub e) :
    single (sub e) (insertBefore e (sub g) m) z = m z := by
  have R := b.rings.perm (queueRings_perm sub head A (g, l) B)
  have r : IsRing m (sub g) (l ++ []) := by
    rw [List.append_nil]
    exact R.head
  have hz₁ := (not_mem_head_ring hz).2.1
  have he₁ := (not_mem_head_ring he).2.1
  rw [single_apply_of_ne hzs]
  rw [← List.append_nil l] at hz₁ he₁
  exact r.insertBefore_frame he₁ hz₁ hze

theorem Buckets.removeLeader_frame (b : Buckets sub key head m (A ++ (e, []) :: B))
    (hz : z ∉ nodes (queueRings sub head (A ++ (e, []) :: B))) : unlink e m z = m z := by
  have R := b.rings.perm (queueRings_perm sub head A (e, []) B)
  refine R.tail.head.unlink_frame fun hc => (not_mem_head_ring hz).1 ?_
  exact (((List.sublist_cons_self e _).append_left _).cons_cons head).subset hc

theorem Buckets.removeFollower_frame {g : N}
    (b : Buckets sub key head m (A ++ (g, c ++ e :: d) :: B))
    (hz : z ∉ nodes (queueRings sub head (A ++ (g, c ++ e :: d) :: B))) : unlink e m z = m z := by
  have R := b.rings.perm (queueRings_perm sub head A (g, c ++ e :: d) B)
  refine R.head.unlink_frame fun hc => (not_mem_head_ring hz).2.1 ?_
  exact (((List.sublist_cons_self e d).append_left c).cons_cons (sub g)).subset hc

theorem Buckets.removePromote_frame (b : Buckets sub key head m (A ++ (e, x :: l) :: B))
    (hz : z ∉ nodes (queueRings sub head (A ++ (e, x :: l) :: B))) :
    unlink e (insertBefore x e (promote (sub e) (sub x) x m)) z = m z := by
  have R := b.rings.perm (queueRings_perm sub head A (e, x :: l) B)
  rw [bucketRings, List.map_cons, List.cons_append, List.cons_append] at R
  have R₀ := R.perm (List.Perm.swap _ _ _)
  have hsx : sub x ∉ nodes _ := fun hc => R₀.not_mem hc List.mem_cons_self
  obtain ⟨hz₁, hz₂, hz₃⟩ := not_mem_head_ring hz
  have hx : z ≠ x := fun hc => hz₂ (hc ▸ List.mem_cons_of_mem _ List.mem_cons_self)
  have rs : IsRing m (sub e) (x :: l) := R.head
  have rh : IsRing m head (A.map Prod.fst ++ e :: B.map Prod.fst) := by
    have := b.rings.head
    rwa [List.map_append, List.map_cons] at this
  have hsx₁ : sub x ∉ sub e :: x :: l := fun hc => hsx (List.mem_append_left _ hc)
  -- the ring of the leaders is not touched by the change of head
  have hdisj (y : N) (hy : y ∈ head :: (A.map Prod.fst ++ e :: B.map Prod.fst)) :
      y ∉ sub e :: x :: l ∧ y ≠ sub x := by
    have hm : y ∈ nodes (l.map (fun x => (sub x, ([] : List N))) ++
        (head, A.map Prod.fst ++ e :: B.map Prod.fst) :: (A ++ B).flatMap (bucketRings sub)) := by
      rw [nodes_append, nodes_cons]
      exact List.mem_append_right _ (List.mem_append_left _ hy)
    refine ⟨R₀.tail.not_mem hm, fun hc => hsx ?_⟩
    rw [← hc, nodes_cons]
    exact List.mem_append_right _ hm
  have rh' : IsRing (promote (sub e) (sub x) x m) head (A.map Prod.fst ++ e :: B.map Prod.fst) :=
    rh.congr fun y hy => rs.promote_frame hsx₁ (hdisj y hy).1 (hdisj y hy).2
  have hxr : x ∉ head :: (A.map Prod.fst ++ e :: B.map Prod.fst) :=
    fun hc => (hdisj x hc).1 (List.mem_cons_of_mem _ List.mem_cons_self)
  have ri := rh'.insertBefore (a := A.map Prod.fst) (b := e :: B.map Prod.fst) hxr
  have hx₃ : A.map Prod.fst ++ x :: e :: B.map Prod.fst =
      (A.map Prod.fst ++ [x]) ++ e :: B.map Prod.fst := by rw [List.append_assoc]; rfl
  rw [List.headD_cons, hx₃] at ri
  have hz₄ : z ∉ head :: (A.map Prod.fst ++ [x] ++ B.map Prod.fst) := by
    simp only [List.mem_cons, List.mem_append, List.not_mem_nil, or_false, not_or] at hz₁ ⊢
    exact ⟨hz₁.1, ⟨hz₁.2.1, hx⟩, hz₁.2.2.2⟩
  calc unlink e (insertBefore x e (promote (sub e) (sub x) x m)) z
      = insertBefore x e (promote (sub e) (sub x) x m) z := ri.unlink_frame hz₄
    _ = promote (sub e) (sub x) x m z :=
        rh'.insertBefore_frame (a := A.map Prod.fst) (b := e :: B.map Prod.fst) hxr hz₁ hx
    _ = m z := rs.promote_frame hsx₁ hz₂ (hz₃ x List.mem_cons_self)

end LinkRing
