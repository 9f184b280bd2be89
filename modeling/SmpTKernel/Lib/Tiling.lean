import Mathlib.Data.List.Basic
import Mathlib.Data.List.Pairwise
import Mathlib.Tactic.Common

/-!
# Tilings of an interval

A stretch of memory cut into areas without gaps, each a header of `hd` bytes followed by `size`
bytes. An area can be cut in two and two neighbours can be joined; both leave the other areas alone.
-/

namespace Tiling

variable {σ : Type*}

/-- An area at `addr`, in the state `st`. -/
structure Area (σ : Type*) where
  addr : ℕ
  size : ℕ
  st : σ
  deriving DecidableEq, Repr

/-- The areas fill the addresses from `lo` to `hi`. -/
def Tiles (hd : ℕ) : ℕ → List (Area σ) → ℕ → Prop
  | lo, [], hi => lo = hi
  | lo, a :: l, hi => a.addr = lo ∧ Tiles hd (lo + hd + a.size) l hi

variable {hd lo hi mid : ℕ} {a b : Area σ} {l l₁ l₂ : List (Area σ)}

theorem tiles_append :
    Tiles hd lo (l₁ ++ l₂) hi ↔ ∃ mid, Tiles hd lo l₁ mid ∧ Tiles hd mid l₂ hi := by
  induction l₁ generalizing lo with
  | nil => exact ⟨fun h => ⟨lo, rfl, h⟩, fun ⟨_, h₁, h₂⟩ => h₁ ▸ h₂⟩
  | cons a l ih =>
    rw [List.cons_append, Tiles, ih]
    constructor
    · rintro ⟨h, mid, h₁, h₂⟩
      exact ⟨mid, ⟨h, h₁⟩, h₂⟩
    · rintro ⟨mid, ⟨h, h₁⟩, h₂⟩
      exact ⟨h, mid, h₁, h₂⟩

theorem tiles_middle :
    Tiles hd lo (l₁ ++ a :: l₂) hi ↔
      Tiles hd lo l₁ a.addr ∧ Tiles hd (a.addr + hd + a.size) l₂ hi := by
  rw [tiles_append]
  constructor
  · rintro ⟨mid, h₁, rfl, h₂⟩
    exact ⟨h₁, h₂⟩
  · rintro ⟨h₁, h₂⟩
    exact ⟨a.addr, h₁, rfl, h₂⟩

theorem Tiles.le (h : Tiles hd lo l hi) : lo ≤ hi := by
  induction l generalizing lo with
  | nil => exact Nat.le_of_eq h
  | cons a l ih =>
    have := ih h.2
    omega

theorem Tiles.bounds (h : Tiles hd lo l hi) (ha : a ∈ l) :
    lo ≤ a.addr ∧ a.addr + hd + a.size ≤ hi := by
  obtain ⟨l₁, l₂, rfl⟩ := List.append_of_mem ha
  obtain ⟨h₁, h₂⟩ := tiles_middle.mp h
  exact ⟨h₁.le, h₂.le⟩

/-- An area ends before the next ones start. -/
theorem Tiles.pairwise (h : Tiles hd lo l hi) :
    l.Pairwise fun a b => a.addr + hd + a.size ≤ b.addr := by
  induction l generalizing lo with
  | nil => exact List.Pairwise.nil
  | cons a l ih =>
    obtain ⟨rfl, h⟩ := h
    exact List.pairwise_cons.mpr ⟨fun b hb => (h.bounds hb).1, ih h⟩

/-- The area after another starts where it ends. -/
theorem Tiles.next (h : Tiles hd lo (l₁ ++ a :: b :: l₂) hi) : b.addr = a.addr + hd + a.size :=
  (tiles_middle.mp h).2.1

theorem Tiles.last (h : Tiles hd lo (l₁ ++ [a]) hi) : hi = a.addr + hd + a.size :=
  (tiles_middle.mp h).2.symm

theorem Tiles.dvd {k : ℕ} (h : Tiles hd lo l hi) (hlo : k ∣ lo) (hhd : k ∣ hd)
    (hs : ∀ a ∈ l, k ∣ a.size) : k ∣ hi ∧ ∀ a ∈ l, k ∣ a.addr := by
  induction l generalizing lo with
  | nil => exact ⟨h ▸ hlo, fun a ha => absurd ha List.not_mem_nil⟩
  | cons a l ih =>
    obtain ⟨rfl, h⟩ := h
    obtain ⟨h₁, h₂⟩ := ih h (Nat.dvd_add (Nat.dvd_add hlo hhd) (hs a List.mem_cons_self))
      fun b hb => hs b (List.mem_cons_of_mem a hb)
    refine ⟨h₁, fun b hb => ?_⟩
    rcases List.mem_cons.mp hb with rfl | hb
    · exact hlo
    · exact h₂ b hb

/-- Stretches that do not meet pairwise: two members are the same or do not meet. -/
theorem pairwise_eq_or_apart {α : Type*} {lo hi : α → ℕ} {l : List α} {x y : α}
    (h : l.Pairwise fun x y => hi x ≤ lo y ∨ hi y ≤ lo x) (hx : x ∈ l) (hy : y ∈ l) :
    x = y ∨ hi x ≤ lo y ∨ hi y ≤ lo x := by
  have hs : Std.Symm fun x y => hi x ≤ lo y ∨ hi y ≤ lo x := ⟨fun _ _ h => h.symm⟩
  by_cases e : x = y
  · exact Or.inl e
  · exact Or.inr (h.forall hx hy e)

theorem Tiles.eq_or_apart (h : Tiles hd lo l hi) (ha : a ∈ l) (hb : b ∈ l) :
    a = b ∨ a.addr + hd + a.size ≤ b.addr ∨ b.addr + hd + b.size ≤ a.addr :=
  pairwise_eq_or_apart (h.pairwise.imp Or.inl) ha hb

theorem Tiles.setState (h : Tiles hd lo (l₁ ++ a :: l₂) hi) (st : σ) :
    Tiles hd lo (l₁ ++ { a with st := st } :: l₂) hi :=
  tiles_middle.mpr (tiles_middle (a := a).mp h)

theorem Tiles.split (h : Tiles hd lo (l₁ ++ a :: l₂) hi) {s t : ℕ} (hs : a.size = s + hd + t)
    (st st' : σ) : Tiles hd lo (l₁ ++ ⟨a.addr, s, st⟩ :: ⟨a.addr + hd + s, t, st'⟩ :: l₂) hi := by
  obtain ⟨h₁, h₂⟩ := tiles_middle.mp h
  refine tiles_middle.mpr ⟨h₁, rfl, ?_⟩
  rwa [hs, ← Nat.add_assoc, ← Nat.add_assoc] at h₂

theorem Tiles.join (h : Tiles hd lo (l₁ ++ a :: b :: l₂) hi) (st : σ) :
    Tiles hd lo (l₁ ++ ⟨a.addr, a.size + hd + b.size, st⟩ :: l₂) hi := by
  obtain ⟨h₁, -, h₂⟩ := tiles_middle.mp h
  refine tiles_middle.mpr ⟨h₁, ?_⟩
  rwa [← Nat.add_assoc, ← Nat.add_assoc]

end Tiling
