import Mathlib.Data.List.Basic
import Mathlib.Order.Lattice
import Mathlib.Tactic.Common

/-!
# Queues ordered by key and age

A queue `q` of the elements that arrived in the order `p` is stable if it is sorted by key and keeps
the order of arrival among elements of the same key. Its first element is the oldest one of the
smallest key.
-/

namespace StableQueue

variable {α κ : Type*} [LinearOrder κ] {key : α → κ} {a b p q : List α} {x y : α}

/-- `q` is `p` sorted by key, the order among equals kept. -/
structure Stable (key : α → κ) (q p : List α) : Prop where
  sorted : q.Pairwise fun x y => key x ≤ key y
  same : ∀ k, q.filter (fun x => key x = k) = p.filter fun x => key x = k

theorem stable_nil (key : α → κ) : Stable key [] [] := ⟨List.Pairwise.nil, fun _ => rfl⟩

theorem Stable.mem_iff (h : Stable key q p) : x ∈ q ↔ x ∈ p := by
  have (l : List α) : x ∈ l ↔ x ∈ l.filter fun z => key z = key x := by simp
  rw [this q, this p, h.same]

theorem Stable.perm (h : Stable key q p) : q.Perm p := by
  classical
  refine List.perm_iff_count.mpr fun x => ?_
  have hcount (l : List α) : (l.filter fun y => key y = key x).count x = l.count x :=
    List.count_filter (p := fun y => decide (key y = key x)) (decide_eq_true rfl)
  rw [← hcount q, h.same, hcount]

theorem Stable.eq_nil_iff (h : Stable key q p) : q = [] ↔ p = [] := by
  rw [List.eq_nil_iff_forall_not_mem, List.eq_nil_iff_forall_not_mem]
  exact forall_congr' fun x => not_congr h.mem_iff

/-- A new element goes behind those of a smaller or the same key and before the others. -/
theorem Stable.insert (h : Stable key (a ++ b) p) (ha : ∀ x ∈ a, key x ≤ key y)
    (hb : ∀ x ∈ b, key y < key x) :
    Stable key (a ++ y :: b) (p ++ [y]) := by
  obtain ⟨sa, sb, sab⟩ := List.pairwise_append.mp h.sorted
  have sby : (y :: b).Pairwise fun x y => key x ≤ key y :=
    List.pairwise_cons.mpr ⟨fun x hx => le_of_lt (hb x hx), sb⟩
  refine ⟨List.pairwise_append.mpr ⟨sa, sby, fun x hx z hz => ?_⟩, fun k => ?_⟩
  · rcases List.mem_cons.mp hz with rfl | hz
    · exact ha x hx
    · exact sab x hx z hz
  · have hs := h.same k
    rw [List.filter_append] at hs
    rw [List.filter_append, List.filter_append, ← hs]
    by_cases hk : key y = k
    · -- nobody behind it has its key
      have hnone : b.filter (fun x => key x = k) = [] := by
        refine List.filter_eq_nil_iff.mpr fun x hx => ?_
        simp only [decide_eq_true_eq]
        exact fun c => ne_of_lt (hb x hx) (hk.trans c.symm)
      simp [hk, hnone]
    · simp [hk]

/-- **The first element** is the oldest one of the smallest key. -/
theorem Stable.pop (h : Stable key (x :: q) p) :
    ∃ a b, p = a ++ x :: b ∧ (∀ y ∈ a, key x < key y) ∧ (∀ y ∈ b, key x ≤ key y) ∧
      Stable key q (a ++ b) := by
  obtain ⟨hle, sorted⟩ := List.pairwise_cons.mp h.sorted
  have hmin : ∀ y ∈ p, key x ≤ key y := by
    intro y hy
    rcases List.mem_cons.mp (h.mem_iff.mpr hy) with rfl | hy
    · exact le_rfl
    · exact hle y hy
  have hx := h.same (key x)
  simp only [List.filter_cons, decide_true, if_true] at hx
  obtain ⟨a, b, rfl, ha, -, hb⟩ := List.filter_eq_cons_iff.mp hx.symm
  refine ⟨a, b, rfl, fun y hy => ?_, fun y hy => hmin y (by simp [hy]), sorted, fun k => ?_⟩
  · refine lt_of_le_of_ne (hmin y (by simp [hy])) fun c => ?_
    simpa [c] using ha y hy
  · have hk := h.same k
    rw [List.filter_append] at hk ⊢
    by_cases hxk : key x = k
    · subst hxk
      have hnil : a.filter (fun y => key y = key x) = [] :=
        List.filter_eq_nil_iff.mpr fun y hy => by simpa using ha y hy
      rw [hnil, List.nil_append]
      exact hb.symm
    · simpa [hxk] using hk

/-! ## Bucket by bucket -/

theorem filter_flatMap_key {ks : List κ} (hks : ks.Nodup) (k : κ) :
    (ks.flatMap fun k => p.filter fun x => key x = k).filter (fun x => key x = k) =
      if k ∈ ks then p.filter fun x => key x = k else [] := by
  induction ks with
  | nil => rfl
  | cons k' ks ih =>
    obtain ⟨hk', hks⟩ := List.nodup_cons.mp hks
    rw [List.flatMap_cons, List.filter_append, ih hks, List.filter_filter]
    by_cases hk : k = k'
    · subst hk
      simp [hk']
    · have hnone : p.filter (fun x => decide (key x = k) && decide (key x = k')) = [] := by
        refine List.filter_eq_nil_iff.mpr fun x _ => ?_
        simp only [Bool.and_eq_true, decide_eq_true_eq]
        exact fun h => hk (h.1.symm.trans h.2)
      rw [hnone, List.nil_append]
      simp only [List.mem_cons, hk, false_or]

/-- **Key after key.** -/
theorem stable_flatMap {ks : List κ} (hks : ks.Pairwise (· < ·)) (hp : ∀ x ∈ p, key x ∈ ks) :
    Stable key (ks.flatMap fun k => p.filter fun x => key x = k) p := by
  have hkey {k : κ} {x : α} (hx : x ∈ p.filter fun x => key x = k) : key x = k :=
    of_decide_eq_true (List.mem_filter.mp hx).2
  refine ⟨List.pairwise_flatMap.mpr ⟨fun k _ => ?_, hks.imp fun h x hx y hy => ?_⟩, fun k => ?_⟩
  · exact List.pairwise_of_forall_mem_list fun x hx y hy =>
      le_of_eq ((hkey hx).trans (hkey hy).symm)
  · rw [hkey hx, hkey hy]
    exact le_of_lt h
  · rw [filter_flatMap_key (hks.imp ne_of_lt)]
    split
    · rfl
    · rename_i hk
      refine (List.filter_eq_nil_iff.mpr fun x hx => ?_).symm
      rw [decide_eq_true_eq]
      rintro rfl
      exact hk (hp x hx)

end StableQueue
