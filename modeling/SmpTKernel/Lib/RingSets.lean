import SmpTKernel.Lib.Rings

/-!
# Sets of rings

Rings through the same memory that share no node, as the list of their heads and members; the order
of the list does not matter. An edit of one ring keeps the others. `IsRing.promote` makes a member's
own cell the new head of the ring it was in.
-/

namespace LinkRing

variable {N : Type*}

/-- The nodes of a list of rings. -/
def nodes (rs : List (N × List N)) : List N := rs.flatMap fun r => r.1 :: r.2

/-- The rings exist and share no node. -/
structure RingSet (m : Links N) (rs : List (N × List N)) : Prop where
  ring : ∀ r ∈ rs, IsRing m r.1 r.2
  nodup : (nodes rs).Nodup

variable {m m' : Links N} {rs rs' : List (N × List N)} {h h' e x : N} {l l' a b : List N}

@[simp] theorem nodes_cons (r : N × List N) (rs : List (N × List N)) :
    nodes (r :: rs) = r.1 :: r.2 ++ nodes rs := rfl

@[simp] theorem nodes_append (rs rs' : List (N × List N)) :
    nodes (rs ++ rs') = nodes rs ++ nodes rs' :=
  List.flatMap_append

theorem mem_nodes {x : N} : x ∈ nodes rs ↔ ∃ r ∈ rs, x ∈ r.1 :: r.2 := List.mem_flatMap

theorem RingSet.perm (R : RingSet m rs) (p : rs.Perm rs') : RingSet m rs' :=
  ⟨fun r hr => R.ring r (p.symm.subset hr), (p.flatMap_right _).nodup_iff.mp R.nodup⟩

/-- The rings are read through their own nodes only. -/
theorem RingSet.congr (R : RingSet m rs) (hm : ∀ x ∈ nodes rs, m' x = m x) : RingSet m' rs :=
  ⟨fun r hr => (R.ring r hr).congr fun x hx => hm x (mem_nodes.mpr ⟨r, hr, hx⟩), R.nodup⟩

theorem RingSet.tail (R : RingSet m ((h, l) :: rs)) : RingSet m rs :=
  ⟨fun r hr => R.ring r (List.mem_cons_of_mem _ hr), (List.nodup_append.mp R.nodup).2.1⟩

theorem RingSet.head (R : RingSet m ((h, l) :: rs)) : IsRing m h l := R.ring _ List.mem_cons_self

/-- The first ring shares no node with the others. -/
theorem RingSet.not_mem (R : RingSet m ((h, l) :: rs)) (hx : x ∈ nodes rs) : x ∉ h :: l :=
  fun hc => (List.nodup_append.mp R.nodup).2.2 x hc x hx rfl

theorem RingSet.cons (R : RingSet m rs) (r : IsRing m h l) (hd : ∀ x ∈ h :: l, x ∉ nodes rs) :
    RingSet m ((h, l) :: rs) := by
  refine ⟨fun r' hr' => ?_, List.nodup_append.mpr ⟨r.nodup, R.nodup, ?_⟩⟩
  · rcases List.mem_cons.mp hr' with rfl | hr'
    · exact r
    · exact R.ring r' hr'
  · rintro y hy _ hz rfl
    exact hd y hy hz

/-- One ring is edited, and nothing but its nodes and new ones are written. -/
theorem RingSet.edit (R : RingSet m ((h, l) :: rs)) (r : IsRing m' h' l')
    (hnew : ∀ x ∈ h' :: l', x ∈ h :: l ∨ x ∉ nodes rs) (hm : ∀ x ∈ nodes rs, m' x = m x) :
    RingSet m' ((h', l') :: rs) := by
  refine (R.tail.congr hm).cons r fun x hx hc => ?_
  rcases hnew x hx with h₁ | h₁
  · exact R.not_mem hc h₁
  · exact h₁ hc

variable [DecidableEq N]

theorem RingSet.single (R : RingSet m rs) (he : e ∉ nodes rs) :
    RingSet (single e m) ((e, []) :: rs) := by
  refine (R.congr fun x hx => ?_).cons (isRing_single e m) ?_
  · exact single_apply_of_ne (ne_of_mem_of_not_mem hx he) m
  · intro x hx
    rw [List.mem_singleton.mp hx]
    exact he

theorem RingSet.insertBefore (R : RingSet m ((h, a ++ b) :: rs))
    (he : e ∉ nodes ((h, a ++ b) :: rs)) :
    RingSet (insertBefore e (b.headD h) m) ((h, a ++ e :: b) :: rs) := by
  have he₁ : e ∉ h :: (a ++ b) := fun hc => he (List.mem_append_left _ hc)
  have he₂ : e ∉ nodes rs := fun hc => he (List.mem_append_right _ hc)
  refine R.edit (R.head.insertBefore he₁) (fun x hx => ?_) fun x hx => ?_
  · by_cases hxe : x = e
    · exact Or.inr (hxe ▸ he₂)
    · refine Or.inl ?_
      simp only [List.mem_cons, List.mem_append] at hx ⊢
      tauto
  · exact R.head.insertBefore_frame he₁ (R.not_mem hx) (ne_of_mem_of_not_mem hx he₂)

theorem RingSet.unlink (R : RingSet m ((h, a ++ e :: b) :: rs)) :
    RingSet (unlink e m) ((h, a ++ b) :: rs) := by
  refine R.edit R.head.unlink (fun x hx => Or.inl ?_) fun x hx => ?_
  · simp only [List.mem_cons, List.mem_append] at hx ⊢
    tauto
  · refine R.head.unlink_frame fun hc => R.not_mem hx ?_
    simp only [List.mem_cons, List.mem_append] at hc ⊢
    tauto

omit [DecidableEq N] in
theorem isRing_rotate : IsRing m h (x :: l) ↔ IsRing m x (l ++ [h]) := by
  have hc : Chain m (h :: (x :: l) ++ [h]) ↔ Linked m h x ∧ Chain m (x :: (l ++ [h])) := by
    rw [List.cons_append, List.cons_append]
    exact List.isChain_cons_cons
  have hc' : Chain m (x :: (l ++ [h]) ++ [x]) ↔ Chain m (x :: (l ++ [h])) ∧ Linked m h x := by
    rw [← List.cons_append, @chain_append_iff N m (x :: l) [] h x]
    exact and_congr_right fun _ => and_iff_left (List.isChain_singleton x)
  have hn : (h :: x :: l).Nodup ↔ (x :: (l ++ [h])).Nodup :=
    (List.perm_append_singleton h (x :: l)).symm.nodup_iff
  constructor
  · rintro ⟨c, n⟩
    exact ⟨hc'.mpr (hc.mp c).symm, hn.mp n⟩
  · rintro ⟨c, n⟩
    exact ⟨hc.mpr (hc'.mp c).symm, hn.mpr n⟩

/-- The links after a change of head: `h` leaves its ring, `e` is linked in at the first member and
this member leaves too. -/
def promote (h e x : N) (m : Links N) : Links N :=
  LinkRing.unlink x (LinkRing.insertBefore e x (LinkRing.unlink h m))

/-- The first member leaves the ring and `e` is the head of the others. -/
theorem IsRing.promote (r : IsRing m h (x :: l)) (he : e ∉ h :: x :: l) :
    IsRing (promote h e x m) e l := by
  have r₁ : IsRing (LinkRing.unlink h m) x l := by
    have := (isRing_rotate.mp r).unlink (a := l) (b := [])
    rwa [List.append_nil] at this
  have he₁ : e ∉ x :: (l ++ []) := by
    rw [List.append_nil]
    exact fun hc => he (List.mem_cons_of_mem h hc)
  have r₂ := IsRing.insertBefore (a := l) (b := []) (by rwa [List.append_nil]) he₁
  exact (isRing_rotate.mpr r₂).unlink (a := []) (b := l)

theorem IsRing.promote_frame (r : IsRing m h (x :: l)) (he : e ∉ h :: x :: l) {z : N}
    (hz : z ∉ h :: x :: l) (hze : z ≠ e) : LinkRing.promote h e x m z = m z := by
  have r₀ : IsRing m x (l ++ h :: []) := isRing_rotate.mp r
  have r₁ : IsRing (LinkRing.unlink h m) x (l ++ []) := r₀.unlink
  have hz₁ : z ∉ x :: (l ++ []) := by
    rw [List.append_nil]
    exact fun hc => hz (List.mem_cons_of_mem h hc)
  have he₁ : e ∉ x :: (l ++ []) := by
    rw [List.append_nil]
    exact fun hc => he (List.mem_cons_of_mem h hc)
  have r₂ : IsRing _ e ([] ++ x :: l) := isRing_rotate.mpr (r₁.insertBefore he₁)
  have hz₂ : z ∉ e :: ([] ++ l) := by
    rw [List.append_nil] at hz₁
    exact fun hc => (List.mem_cons.mp hc).elim hze fun hc => hz₁ (List.mem_cons_of_mem x hc)
  calc LinkRing.promote h e x m z
      = LinkRing.insertBefore e x (LinkRing.unlink h m) z := r₂.unlink_frame hz₂
    _ = LinkRing.unlink h m z := r₁.insertBefore_frame he₁ hz₁ hze
    _ = m z := r₀.unlink_frame hz₁

theorem RingSet.promote (R : RingSet m ((h, x :: l) :: rs)) (he : e ∉ nodes ((h, x :: l) :: rs)) :
    RingSet (promote h e x m) ((e, l) :: rs) := by
  have he₁ : e ∉ h :: x :: l := fun hc => he (List.mem_append_left _ hc)
  have he₂ : e ∉ nodes rs := fun hc => he (List.mem_append_right _ hc)
  refine R.edit (R.head.promote he₁) (fun y hy => ?_) fun z hz => ?_
  · rcases List.mem_cons.mp hy with rfl | hy
    · exact Or.inr he₂
    · exact Or.inl (List.mem_cons_of_mem h (List.mem_cons_of_mem x hy))
  · exact R.head.promote_frame he₁ (R.not_mem hz) (ne_of_mem_of_not_mem hz he₂)

end LinkRing
