import Mathlib.Combinatorics.Hall.Basic
import Mathlib.Data.Finset.Card
import Mathlib.Tactic.Common

/-!
# Rows matched injectively to columns

A finite set `R` of rows, each with a finite set `N i` of columns it may use, is `Matchable` when
the rows can be given distinct columns. `matchable_iff` is Hall's condition and
`matchable_insert_iff` its incremental form: a new row fits when no set of the rows already there is
too crowded together with it. `Matchable.pair` says when a row and a column may be paired for good
without looking ahead: with at most four columns, a pair at a row or a column of least degree is
always safe.
-/

namespace Transversal

variable {ι κ : Type*}

/-- The rows `R` can be given distinct columns. -/
def Matchable (N : ι → Finset κ) (R : Finset ι) : Prop :=
  ∃ f : R → κ, Function.Injective f ∧ ∀ i : R, f i ∈ N i

variable [DecidableEq ι] [DecidableEq κ] {N : ι → Finset κ} {R : Finset ι}

theorem matchable_iff : Matchable N R ↔ ∀ S ⊆ R, S.card ≤ (S.biUnion N).card := by
  unfold Matchable
  rw [← Finset.all_card_le_biUnion_card_iff_exists_injective (fun i : R => N i)]
  constructor
  · intro h S hS
    have := h (S.subtype (· ∈ R))
    rw [Finset.card_subtype, Finset.filter_true_of_mem hS] at this
    refine this.trans (Finset.card_le_card fun x hx => ?_)
    obtain ⟨i, hi, hx⟩ := Finset.mem_biUnion.mp hx
    exact Finset.mem_biUnion.mpr ⟨i, Finset.mem_subtype.mp hi, hx⟩
  · intro h s
    have := h (s.map (Function.Embedding.subtype _)) fun x hx => by
      obtain ⟨i, -, rfl⟩ := Finset.mem_map.mp hx
      exact i.2
    rw [Finset.card_map] at this
    refine this.trans (Finset.card_le_card fun x hx => ?_)
    obtain ⟨i, hi, hxi⟩ := Finset.mem_biUnion.mp hx
    obtain ⟨j, hj, rfl⟩ := Finset.mem_map.mp hi
    exact Finset.mem_biUnion.mpr ⟨j, hj, hxi⟩

theorem Matchable.card_le (h : Matchable N R) {S : Finset ι} (hS : S ⊆ R) :
    S.card ≤ (S.biUnion N).card :=
  matchable_iff.mp h S hS

theorem Matchable.mono (h : Matchable N R) {S : Finset ι} (hS : S ⊆ R) : Matchable N S :=
  matchable_iff.mpr fun _ hT => h.card_le (hT.trans hS)

omit [DecidableEq ι] [DecidableEq κ] in
theorem Matchable.nonempty (h : Matchable N R) {i : ι} (hi : i ∈ R) : (N i).Nonempty := by
  obtain ⟨f, -, hf⟩ := h
  exact ⟨f ⟨i, hi⟩, hf ⟨i, hi⟩⟩

/-- **The incremental test.** A new row fits when every set of the rows already there leaves room
for it. -/
theorem matchable_insert_iff (h : Matchable N R) {i : ι} (hi : i ∉ R) :
    Matchable N (insert i R) ↔ ∀ S ⊆ R, S.card + 1 ≤ (N i ∪ S.biUnion N).card := by
  rw [matchable_iff]
  constructor
  · intro hall S hS
    have := hall (insert i S) (Finset.insert_subset_insert i hS)
    rwa [Finset.card_insert_of_notMem fun c => hi (hS c), Finset.biUnion_insert] at this
  · intro hnew S hS
    by_cases hiS : i ∈ S
    · have hsub : S.erase i ⊆ R := by
        intro x hx
        exact (Finset.mem_insert.mp (hS (Finset.mem_of_mem_erase hx))).resolve_left
          (Finset.ne_of_mem_erase hx)
      have := hnew (S.erase i) hsub
      rwa [Finset.card_erase_add_one hiS, ← Finset.biUnion_insert, Finset.insert_erase hiS] at this
    · refine h.card_le fun x hx => (Finset.mem_insert.mp (hS hx)).resolve_left ?_
      rintro rfl
      exact hiS hx

/-! ## Pairing without looking ahead -/

/-- The rows that may use column `j`. -/
def users (N : ι → Finset κ) (R : Finset ι) (j : κ) : Finset ι := R.filter fun i => j ∈ N i

omit [DecidableEq ι] in
theorem mem_users {i : ι} {j : κ} : i ∈ users N R j ↔ i ∈ R ∧ j ∈ N i := Finset.mem_filter

/-- Rows that leave none of their columns over. -/
structure Tight (N : ι → Finset κ) (R S : Finset ι) : Prop where
  sub : S ⊆ R
  card : (S.biUnion N).card = S.card

section Tight

variable {S : Finset ι} {i i' : ι} {j m : κ}

/-- Rows that are too crowded once the column `j` is gone are tight, and use it. -/
theorem Matchable.tight (h : Matchable N R) (hSR : S ⊆ R)
    (hbad : ¬S.card ≤ (S.biUnion fun k => (N k).erase j).card) : Tight N R S ∧ j ∈ S.biUnion N := by
  have herase : (S.biUnion fun k => (N k).erase j) = (S.biUnion N).erase j := by
    ext x
    simp only [Finset.mem_biUnion, Finset.mem_erase]
    constructor
    · rintro ⟨k, hk, hx, hxk⟩; exact ⟨hx, k, hk, hxk⟩
    · rintro ⟨hx, k, hk, hxk⟩; exact ⟨k, hk, hx, hxk⟩
  have hT := h.card_le hSR
  rw [herase] at hbad
  have hjT : j ∈ S.biUnion N := by
    by_contra hj'
    rw [Finset.erase_eq_of_notMem hj'] at hbad
    exact hbad hT
  rw [Finset.card_erase_of_mem hjT] at hbad
  exact ⟨⟨hSR, by omega⟩, hjT⟩

omit [DecidableEq κ] in
theorem card_insert_two (hiS : i ∉ S) (hi'S : i' ∉ S) (hne : i' ≠ i) :
    (insert i (insert i' S)).card = S.card + 2 := by
  rw [Finset.card_insert_of_notMem, Finset.card_insert_of_notMem hi'S]
  rw [Finset.mem_insert]
  rintro (e | e)
  · exact hne e.symm
  · exact hiS e

theorem Tight.card_insert (t : Tight N R S) (h : Matchable N R) (hi : i ∈ R) (hiS : i ∉ S)
    (hi' : i' ∈ R) (hi'S : i' ∉ S) (hne : i' ≠ i) :
    S.card + 2 ≤ (N i ∪ (N i' ∪ S.biUnion N)).card := by
  have h2 := h.card_le (Finset.insert_subset hi (Finset.insert_subset hi' t.sub))
  rwa [card_insert_two hiS hi'S hne, Finset.biUnion_insert, Finset.biUnion_insert] at h2

/-- A row outside a tight set uses a column that the set does not use. -/
theorem Tight.exists_column (t : Tight N R S) (h : Matchable N R) (hi : i ∈ R) (hiS : i ∉ S) :
    ∃ m ∈ N i, m ∉ S.biUnion N := by
  have h1 := h.card_le (Finset.insert_subset hi t.sub)
  rw [Finset.card_insert_of_notMem hiS, Finset.biUnion_insert] at h1
  by_contra hall
  have : N i ∪ S.biUnion N = S.biUnion N := Finset.union_eq_right.mpr fun x hx => by
    by_contra hx'
    exact hall ⟨x, hx, hx'⟩
  rw [this, t.card] at h1
  omega

/-- If one more column is all that `i` needs, then a further row `i'` has another one. -/
theorem Tight.exists_second (t : Tight N R S) (h : Matchable N R) (hi : i ∈ R) (hiS : i ∉ S)
    (hi' : i' ∈ R) (hi'S : i' ∉ S) (hne : i' ≠ i) (hm : m ∉ S.biUnion N)
    (hNi : N i ⊆ insert m (S.biUnion N)) :
    ∃ n ∈ N i', n ∉ S.biUnion N ∧ n ≠ m := by
  by_contra hall
  have hsub : N i ∪ (N i' ∪ S.biUnion N) ⊆ insert m (S.biUnion N) := by
    refine Finset.union_subset hNi (Finset.union_subset (fun x hx => ?_) (Finset.subset_insert _ _))
    rw [Finset.mem_insert]
    by_contra hx'
    push Not at hx'
    exact hall ⟨x, hx, hx'.2, hx'.1⟩
  have hle := Finset.card_le_card hsub
  rw [Finset.card_insert_of_notMem hm, t.card] at hle
  have := t.card_insert h hi hiS hi' hi'S hne
  omega

omit [DecidableEq ι] in
/-- A row that uses as many columns as there are rows uses them all. -/
theorem Tight.columns (t : Tight N R S) {l : ι} (hl : l ∈ S) (hc : S.card ≤ (N l).card) :
    N l = S.biUnion N :=
  Finset.eq_of_subset_of_card_le (Finset.subset_biUnion_of_mem N hl) (t.card.symm ▸ hc)

end Tight

/-- **Pairing.** Let every row and every column in use have degree at least `c`, let the row `i` or
the column `j` have degree exactly `c`, and let `i` use `j`. With at most four columns in use, `i`
can be paired with `j` for good. -/
theorem Matchable.pair (h : Matchable N R) {i : ι} {j : κ} {c : ℕ} (hi : i ∈ R) (hj : j ∈ N i)
    (hrow : ∀ k ∈ R, c ≤ (N k).card) (hcol : ∀ k ∈ R, ∀ l ∈ N k, c ≤ (users N R l).card)
    (hc : (N i).card = c ∨ (users N R j).card = c) (h4 : (R.biUnion N).card ≤ 4) :
    Matchable (fun k => (N k).erase j) (R.erase i) := by
  rw [matchable_iff]
  intro S hS
  by_contra hbad
  have hR4 : R.card ≤ 4 := (h.card_le subset_rfl).trans h4
  have hSR : S ⊆ R := hS.trans (Finset.erase_subset i R)
  have hiS : i ∉ S := fun c => Finset.ne_of_mem_erase (hS c) rfl
  obtain ⟨t, hjT⟩ := h.tight hSR hbad
  obtain ⟨k, hkS, hjk⟩ := Finset.mem_biUnion.mp hjT
  have hki : k ≠ i := by rintro rfl; exact hiS hkS
  -- `i` needs a column `m` that no row of `S` uses
  obtain ⟨m, hmi, hmT⟩ := t.exists_column h hi hiS
  have hjm : j ≠ m := by rintro rfl; exact hmT hjT
  have hji : 2 ≤ (N i).card := Finset.one_lt_card.mpr ⟨j, hj, m, hmi, hjm⟩
  have hju : 2 ≤ (users N R j).card := Finset.one_lt_card.mpr
    ⟨i, mem_users.mpr ⟨hi, hj⟩, k, mem_users.mpr ⟨hSR hkS, hjk⟩, hki.symm⟩
  have hc2 : 2 ≤ c := by omega
  -- a second row uses `m`; it lies outside `S` too
  obtain ⟨i', hi', hne'⟩ := Finset.exists_mem_ne (lt_of_lt_of_le hc2 (hcol i hi m hmi)) i
  obtain ⟨hi'R, hmi'⟩ := mem_users.mp hi'
  have hi'S : i' ∉ S := fun c => hmT (Finset.mem_biUnion.mpr ⟨i', c, hmi'⟩)
  have hsub : insert i (insert i' S) ⊆ R := Finset.insert_subset hi (Finset.insert_subset hi'R hSR)
  have hcard := card_insert_two hiS hi'S hne'
  -- so `S` has two rows, which use the same two columns, and `j` has three users
  have hkc : c ≤ S.card :=
    t.card ▸ (hrow k (hSR hkS)).trans (Finset.card_le_card (Finset.subset_biUnion_of_mem N hkS))
  have hS4 : S.card + 2 ≤ 4 := hcard ▸ (Finset.card_le_card hsub).trans hR4
  have hju3 : 3 ≤ (users N R j).card := by
    have hsub' : insert i S ⊆ users N R j :=
      Finset.insert_subset (mem_users.mpr ⟨hi, hj⟩) fun l hl => by
      have hNl := t.columns hl ((by omega : S.card ≤ c).trans (hrow l (hSR hl)))
      exact mem_users.mpr ⟨hSR hl, hNl ▸ hjT⟩
    have := Finset.card_le_card hsub'
    rw [Finset.card_insert_of_notMem hiS] at this
    omega
  -- hence the row `i` is the one of degree two, and it uses `j` and `m` only
  have hNi : {j, m} = N i := by
    refine Finset.eq_of_subset_of_card_le (fun x hx => ?_) ?_
    · rcases Finset.mem_insert.mp hx with rfl | hx
      · exact hj
      · rw [Finset.mem_singleton.mp hx]; exact hmi
    · rw [Finset.card_pair hjm]; omega
  have hNi' : N i ⊆ insert m (S.biUnion N) := by
    rw [← hNi]
    exact Finset.insert_subset (Finset.mem_insert_of_mem hjT)
      (Finset.singleton_subset_iff.mpr (Finset.mem_insert_self ..))
  -- the row `i'` then needs a fourth column, whose second user would be a fifth row
  obtain ⟨n, hni', hnT, hnm⟩ := t.exists_second h hi hiS hi'R hi'S hne' hmT hNi'
  obtain ⟨l, hl, hli'⟩ := Finset.exists_mem_ne (lt_of_lt_of_le hc2 (hcol i' hi'R n hni')) i'
  obtain ⟨hlR, hnl⟩ := mem_users.mp hl
  have hlS : l ∉ S := fun c => hnT (Finset.mem_biUnion.mpr ⟨l, c, hnl⟩)
  have hli : l ≠ i := by
    rintro rfl
    rcases Finset.mem_insert.mp (hNi' hnl) with rfl | hnl
    · exact hnm rfl
    · exact hnT hnl
  have h5 : (insert l (insert i (insert i' S))).card ≤ R.card :=
    Finset.card_le_card (Finset.insert_subset hlR hsub)
  rw [Finset.card_insert_of_notMem, hcard] at h5
  · omega
  · simp only [Finset.mem_insert]
    tauto

end Transversal
