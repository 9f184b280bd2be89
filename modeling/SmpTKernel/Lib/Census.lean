import Mathlib.Data.Set.Card

/-!
# Counting the parties in a part of a program

Parties have positions `f`, and some positions belong to a part `C` of the program. `Count f C n`
says that `n` parties are there; a counter that is changed at the borders of the part keeps up with
it.
-/

namespace Census

variable {α β : Type*} {f : α → β} {C : β → Prop} {n : ℕ} {a : α} {b : β}

/-- `n` parties are in the part `C`. -/
def Count (f : α → β) (C : β → Prop) (n : ℕ) : Prop := {a | C (f a)}.encard = n

theorem count_zero (h : ∀ a, ¬C (f a)) : Count f C 0 := by
  unfold Count
  rw [Set.eq_empty_of_forall_notMem (s := {a | C (f a)}) h]
  exact Set.encard_empty

theorem Count.none (h : Count f C 0) (a : α) : ¬C (f a) := by
  intro ha
  have hempty : {a | C (f a)} = ∅ := Set.encard_eq_zero.mp h
  exact Set.eq_empty_iff_forall_notMem.mp hempty a ha

theorem Count.pos (h : Count f C n) (ha : C (f a)) : 0 < n := by
  rcases Nat.eq_zero_or_pos n with rfl | hpos
  · exact absurd ha (h.none a)
  · exact hpos

theorem Count.exists (h : Count f C n) (hn : 0 < n) : ∃ a, C (f a) := by
  by_contra hc
  have h0 : {a | C (f a)}.encard = (n : ℕ∞) := h
  have hz : {a | C (f a)}.encard = ((0 : ℕ) : ℕ∞) := count_zero (not_exists.mp hc)
  rw [h0, Nat.cast_inj] at hz
  exact hn.ne' hz

theorem Count.unique {a' : α} (h : Count f C n) (hn : n ≤ 1) (ha : C (f a)) (ha' : C (f a')) :
    a = a' := by
  have hle : {a | C (f a)}.encard ≤ 1 := by
    have h0 : {a | C (f a)}.encard = (n : ℕ∞) := h
    rw [h0]
    exact Nat.cast_le_one.mpr hn
  exact Set.encard_le_one_iff.mp hle a a' ha ha'

theorem Count.congr {γ : Type*} {g : α → γ} {D : γ → Prop} (h : Count f C n)
    (hiff : ∀ a, D (g a) ↔ C (f a)) :
    Count g D n := by
  have e : {a | D (g a)} = {a | C (f a)} := Set.ext hiff
  unfold Count
  rw [e]
  exact h

/-- Parties that are numbered below `n` are at most `n`. -/
theorem Count.le_of_lt {f : ℕ → β} {m : ℕ} (h : Count f C n) (hlt : ∀ a, C (f a) → a < m) :
    n ≤ m := by
  have hsub : {a | C (f a)} ⊆ ↑(Finset.range m) :=
    fun a ha => Finset.mem_coe.mpr (Finset.mem_range.mpr (hlt a ha))
  have hle := Set.encard_le_encard hsub
  have h0 : {a | C (f a)}.encard = (n : ℕ∞) := h
  rw [h0, Set.encard_coe_eq_coe_finsetCard, Finset.card_range] at hle
  exact Nat.cast_le.mp hle

variable [DecidableEq α]

theorem Count.join (h : Count f C n) (hout : ¬C (f a)) (hin : C b) :
    Count (Function.update f a b) C (n + 1) := by
  have e : {x | C (Function.update f a b x)} = insert a {x | C (f x)} := by
    ext x
    rw [Set.mem_insert_iff, Set.mem_ofPred_eq, Set.mem_ofPred_eq]
    rcases eq_or_ne x a with rfl | hne
    · rw [Function.update_self]
      exact ⟨fun _ => Or.inl rfl, fun _ => hin⟩
    · rw [Function.update_of_ne hne]
      exact ⟨Or.inr, fun hx => hx.resolve_left hne⟩
  have h0 : {a | C (f a)}.encard = (n : ℕ∞) := h
  unfold Count
  rw [e, Set.encard_insert_of_notMem (s := {x | C (f x)}) hout, h0, Nat.cast_succ]

theorem Count.leave (h : Count f C n) (hin : C (f a)) (hout : ¬C b) :
    Count (Function.update f a b) C (n - 1) := by
  have e : {x | C (Function.update f a b x)} = {x | C (f x)} \ {a} := by
    ext x
    rw [Set.mem_sdiff, Set.mem_singleton_iff, Set.mem_ofPred_eq, Set.mem_ofPred_eq]
    rcases eq_or_ne x a with rfl | hne
    · rw [Function.update_self]
      exact ⟨fun hx => absurd hx hout, fun hx => absurd rfl hx.2⟩
    · rw [Function.update_of_ne hne]
      exact ⟨fun hx => ⟨hx, hne⟩, fun hx => hx.1⟩
  have h0 : {a | C (f a)}.encard = (n : ℕ∞) := h
  obtain ⟨m, rfl⟩ : ∃ m, n = m + 1 := Nat.exists_eq_succ_of_ne_zero (h.pos hin).ne'
  have hm := Set.encard_sdiff_singleton_add_one (s := {x | C (f x)}) hin
  rw [h0, Nat.cast_succ] at hm
  unfold Count
  rw [e, Nat.add_sub_cancel]
  exact (ENat.addLECancellable_of_ne_top ENat.one_ne_top).inj_left.mp hm

theorem Count.stay (h : Count f C n) (hiff : C b ↔ C (f a)) :
    Count (Function.update f a b) C n := by
  refine h.congr fun x => ?_
  rcases eq_or_ne x a with rfl | hne
  · rw [Function.update_self]
    exact hiff
  · rw [Function.update_of_ne hne]

end Census
