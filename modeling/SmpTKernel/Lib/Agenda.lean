import Mathlib.Data.List.Basic
import Mathlib.Data.List.Induction
import Mathlib.Order.Lattice
import Mathlib.Tactic.Common

/-!
# Agendas

A list of arrivals put in the order of a key, arrivals of one key in the order they came in. Such a
list is unique; a new arrival goes in before the first element with a larger key.
-/

namespace Agenda

variable {α K : Type*} [LinearOrder K] {key : α → K} {k : K} {p p' l l' a b : List α} {x y : α}

/-- The elements with the key `k`. -/
def atKey (key : α → K) (k : K) (l : List α) : List α := l.filter fun x => key x = k

@[simp] theorem atKey_nil : atKey key k [] = [] := rfl

theorem atKey_cons_self (h : key x = k) (l : List α) : atKey key k (x :: l) = x :: atKey key k l :=
  List.filter_cons_of_pos (decide_eq_true h)

theorem atKey_cons_of_ne (h : key x ≠ k) (l : List α) : atKey key k (x :: l) = atKey key k l :=
  List.filter_cons_of_neg (Bool.not_eq_true _ ▸ decide_eq_false h)

theorem atKey_append (a b : List α) : atKey key k (a ++ b) = atKey key k a ++ atKey key k b :=
  List.filter_append ..

theorem mem_atKey : x ∈ atKey key k l ↔ x ∈ l ∧ key x = k := by
  unfold atKey
  rw [List.mem_filter, decide_eq_true_iff]

theorem atKey_filter (f : α → Bool) : atKey key k (l.filter f) = (atKey key k l).filter f :=
  List.filter_comm ..

/-- `l` is the list of arrivals `p` in the order of the key. -/
structure Sorts (key : α → K) (p l : List α) : Prop where
  sorted : l.Pairwise fun x y => key x ≤ key y
  fifo : ∀ k, atKey key k l = atKey key k p

theorem Sorts.nil : Sorts key [] [] := ⟨List.Pairwise.nil, fun _ => rfl⟩

theorem Sorts.perm (h : Sorts key p l) : l.Perm p := by
  classical
  have hcount (q : List α) (x : α) : q.count x = (atKey key (key x) q).count x := by
    unfold atKey
    rw [List.count_filter]
    exact decide_eq_true rfl
  rw [List.perm_iff_count]
  intro x
  rw [hcount l, hcount p, h.fifo]

theorem Sorts.mem_iff (h : Sorts key p l) : x ∈ l ↔ x ∈ p := h.perm.mem_iff

/-- The place of a key among sorted elements. -/
theorem exists_position (h : l.Pairwise fun x y => key x ≤ key y) (x : α) :
    ∃ a b, l = a ++ b ∧ (∀ y ∈ a, key y ≤ key x) ∧ ∀ y ∈ b, key x < key y := by
  induction l with
  | nil => exact ⟨[], [], rfl, fun _ hy => absurd hy List.not_mem_nil, fun _ hy =>
      absurd hy List.not_mem_nil⟩
  | cons z l ih =>
    obtain ⟨hz, hl⟩ := List.pairwise_cons.mp h
    by_cases hlt : key x < key z
    · refine ⟨[], z :: l, rfl, fun _ hy => absurd hy List.not_mem_nil, fun y hy => ?_⟩
      rcases List.mem_cons.mp hy with rfl | hy
      · exact hlt
      · exact lt_of_lt_of_le hlt (hz y hy)
    · obtain ⟨a, b, rfl, ha, hb⟩ := ih hl
      refine ⟨z :: a, b, rfl, fun y hy => ?_, hb⟩
      rcases List.mem_cons.mp hy with rfl | hy
      · exact not_lt.mp hlt
      · exact ha y hy

theorem Sorts.insert (h : Sorts key p (a ++ b)) (ha : ∀ y ∈ a, key y ≤ key x)
    (hb : ∀ y ∈ b, key x < key y) :
    Sorts key (p ++ [x]) (a ++ x :: b) := by
  obtain ⟨sa, sb, sab⟩ := List.pairwise_append.mp h.sorted
  refine ⟨List.pairwise_append.mpr ⟨sa, List.pairwise_cons.mpr ⟨?_, sb⟩, ?_⟩, fun k => ?_⟩
  · intro y hy
    exact le_of_lt (hb y hy)
  · intro y hy z hz
    rcases List.mem_cons.mp hz with rfl | hz
    · exact ha y hy
    · exact sab y hy z hz
  · rw [atKey_append p, ← h.fifo, atKey_append, atKey_append, List.append_assoc]
    congr 1
    by_cases hk : key x = k
    · have hnil : atKey key k b = [] := by
        rw [List.eq_nil_iff_forall_not_mem]
        intro y hy
        obtain ⟨hyb, hyk⟩ := mem_atKey.mp hy
        exact absurd (hb y hyb) (hk.trans hyk.symm).not_lt
      rw [atKey_cons_self hk, atKey_cons_self hk, hnil]
      rfl
    · rw [atKey_cons_of_ne hk, atKey_cons_of_ne hk, atKey_nil, List.append_nil]

theorem Sorts.exists (key : α → K) (p : List α) : ∃ l, Sorts key p l := by
  induction p using List.reverseRecOn with
  | nil => exact ⟨[], Sorts.nil⟩
  | append_singleton p x ih =>
    obtain ⟨l, hl⟩ := ih
    obtain ⟨a, b, rfl, ha, hb⟩ := exists_position hl.sorted x
    exact ⟨a ++ x :: b, hl.insert ha hb⟩

theorem Sorts.filter (h : Sorts key p l) (f : α → Bool) : Sorts key (p.filter f) (l.filter f) := by
  refine ⟨h.sorted.sublist List.filter_sublist, fun k => ?_⟩
  rw [atKey_filter, h.fifo, atKey_filter]

theorem Sorts.head_le (h : Sorts key p (x :: l)) (hy : y ∈ p) : key x ≤ key y := by
  rcases List.mem_cons.mp (h.mem_iff.mpr hy) with rfl | hy
  · exact le_rfl
  · exact (List.pairwise_cons.mp h.sorted).1 y hy

/-- A list has one such order only. -/
theorem Sorts.unique (h : Sorts key p l) (h' : Sorts key p l') : l = l' := by
  induction l generalizing p l' with
  | nil =>
    rcases l' with _ | ⟨y, l'⟩
    · rfl
    · exact absurd (h.mem_iff.mpr (h'.mem_iff.mp List.mem_cons_self)) List.not_mem_nil
  | cons x l ih =>
    rcases l' with _ | ⟨y, l'⟩
    · exact absurd (h'.mem_iff.mpr (h.mem_iff.mp List.mem_cons_self)) List.not_mem_nil
    · have hkey : key y = key x := by
        apply le_antisymm
        · exact h'.head_le (h.mem_iff.mp List.mem_cons_self)
        · exact h.head_le (h'.mem_iff.mp List.mem_cons_self)
      have hfifo (k : K) : atKey key k (x :: l) = atKey key k (y :: l') :=
        (h.fifo k).trans (h'.fifo k).symm
      have hhead := hfifo (key x)
      rw [atKey_cons_self rfl, atKey_cons_self hkey] at hhead
      obtain rfl := (List.cons.inj hhead).1
      have htail (k : K) : atKey key k l' = atKey key k l := by
        by_cases hk : key x = k
        · have hf := hfifo k
          rw [atKey_cons_self hk, atKey_cons_self hk] at hf
          exact (List.cons.inj hf).2.symm
        · have hf := hfifo k
          rw [atKey_cons_of_ne hk, atKey_cons_of_ne hk] at hf
          exact hf.symm
      have hl : Sorts key l l := ⟨(List.pairwise_cons.mp h.sorted).2, fun _ => rfl⟩
      rw [ih hl ⟨(List.pairwise_cons.mp h'.sorted).2, htail⟩]

end Agenda
