import Mathlib.Tactic.Common

/-!
# Loops with fuel

A loop without a bound of its own is a function of a number of turns that has no result when the
turns run out. It returns when some number of turns is enough and more of them change nothing.
-/

namespace Fuel

variable {α β : Type*} {f : ℕ → Option α} {g : α → ℕ → Option β} {a a' : α} {b : β}

/-- Enough turns give the result `a`. -/
def Returns (f : ℕ → Option α) (a : α) : Prop := ∃ n, ∀ k, n ≤ k → f k = some a

theorem returns_const (a : α) : Returns (fun _ => some a) a := ⟨0, fun _ _ => rfl⟩

theorem Returns.unique (h : Returns f a) (h' : Returns f a') : a = a' := by
  obtain ⟨n, hn⟩ := h
  obtain ⟨n', hn'⟩ := h'
  have h := hn (max n n') (Nat.le_max_left n n')
  rw [hn' (max n n') (Nat.le_max_right n n')] at h
  exact (Option.some.inj h).symm

theorem Returns.congr {f' : ℕ → Option α} (h : Returns f a) (hf : ∀ k, f' k = f k) :
    Returns f' a := by
  obtain ⟨n, hn⟩ := h
  exact ⟨n, fun k hk => (hf k).trans (hn k hk)⟩

theorem Returns.bind (h : Returns f a) (h' : Returns (g a) b) :
    Returns (fun k => (f k).bind (g · k)) b := by
  obtain ⟨n, hn⟩ := h
  obtain ⟨n', hn'⟩ := h'
  refine ⟨max n n', fun k hk => ?_⟩
  show (f k).bind (g · k) = some b
  rw [hn k (Nat.le_trans (Nat.le_max_left n n') hk)]
  exact hn' k (Nat.le_trans (Nat.le_max_right n n') hk)

theorem Returns.map (h : Returns f a) (m : α → β) : Returns (fun k => (f k).map m) (m a) := by
  obtain ⟨n, hn⟩ := h
  refine ⟨n, fun k hk => ?_⟩
  show (f k).map m = some (m a)
  rw [hn k hk]
  rfl

theorem Returns.turn {f' : ℕ → Option α} (h : Returns f a) (hf : ∀ k, f' (k + 1) = f k) :
    Returns f' a := by
  obtain ⟨n, hn⟩ := h
  refine ⟨n + 1, fun k hk => ?_⟩
  obtain ⟨k, rfl⟩ := Nat.exists_eq_add_of_le' hk
  rw [← Nat.add_assoc, hf]
  exact hn _ (Nat.le_add_left n k)

/-- One turn more than is enough changes nothing. -/
def Steady (f : ℕ → Option α) : Prop := ∀ n a, f n = some a → f (n + 1) = some a

theorem steady_const (a : Option α) : Steady fun _ => a := fun _ _ h => h

theorem Steady.bind (hf : Steady f) (hg : ∀ a, Steady (g a)) :
    Steady fun n => (f n).bind (g · n) := by
  intro n b h
  obtain ⟨a, ha, hb⟩ := Option.bind_eq_some_iff.mp h
  exact Option.bind_eq_some_iff.mpr ⟨a, hf n a ha, hg a n b hb⟩

theorem Steady.map (hf : Steady f) (m : α → β) : Steady fun n => (f n).map m := by
  intro n b h
  obtain ⟨a, ha, rfl⟩ := Option.map_eq_some_iff.mp h
  exact Option.map_eq_some_iff.mpr ⟨a, hf n a ha, rfl⟩

theorem Steady.returns (hf : Steady f) {n : ℕ} (h : f n = some a) : Returns f a := by
  refine ⟨n, fun k hk => ?_⟩
  induction hk with
  | refl => exact h
  | step _ ih => exact hf _ a ih

end Fuel
