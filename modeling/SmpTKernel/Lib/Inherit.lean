import Mathlib.Data.Finset.Card
import Mathlib.Data.Set.Basic
import Mathlib.Logic.Relation
import Mathlib.Order.Bounds.Basic
import Mathlib.Tactic.Common

/-!
# Inherited values

Points have values of their own and inherit the values of the points that follow them. A point is
level when its value is the least of these. A new value of one point concerns those it follows; they
stay level unless they were above the new value or equal to the old one.
-/

namespace Inherit

variable {V P : Type*} {own own' : V → Set P} {next next' : V → V → Prop} {val val' : V → P}
  {S : Set V} {u v : V} {p : P}

/-- What a point inherits and has on its own; `next w v` says that `w` follows `v`. -/
def asks (own : V → Set P) (next : V → V → Prop) (val : V → P) (v : V) : Set P :=
  own v ∪ {p | ∃ w, next w v ∧ val w = p}

theorem asks_congr (hown : own' v = own v) (hnext : ∀ w, next' w v ↔ next w v)
    (hval : ∀ w, next w v → val' w = val w) : asks own' next' val' v = asks own next val v := by
  unfold asks
  rw [hown]
  congr 1
  ext p
  constructor
  · rintro ⟨w, hw, rfl⟩
    have hw' := (hnext w).mp hw
    exact ⟨w, hw', (hval w hw').symm⟩
  · rintro ⟨w, hw, rfl⟩
    exact ⟨w, (hnext w).mpr hw, hval w hw⟩

theorem asks_update [DecidableEq V] (h : ¬next v u) :
    asks own next (Function.update val v p) u = asks own next val u := by
  refine asks_congr rfl (fun _ => Iff.rfl) fun w hw => Function.update_of_ne ?_ _ _
  rintro rfl
  exact h hw

theorem asks_mono (hown : own v ⊆ own' v) (hnext : ∀ w, next w v → next' w v) :
    asks own next val v ⊆ asks own' next' val v := by
  rintro p (hp | ⟨w, hw, rfl⟩)
  · exact .inl (hown hp)
  · exact .inr ⟨w, hnext w hw, rfl⟩

variable [LinearOrder P]

def Level (own : V → Set P) (next : V → V → Prop) (val : V → P) (v : V) : Prop :=
  IsLeast (asks own next val v) (val v)

def Balanced (own : V → Set P) (next : V → V → Prop) (val : V → P) (S : Set V) : Prop :=
  ∀ v ∈ S, Level own next val v

/-- Only `v` is not level, and is to get the value `p`. -/
structure Pending (own : V → Set P) (next : V → V → Prop) (val : V → P) (S : Set V) (v : V)
    (p : P) : Prop where
  others : ∀ u ∈ S, u ≠ v → Level own next val u
  least : IsLeast (asks own next val v) p

theorem Level.congr (h : Level own next val u) (hval : val' = val) (hown : own' u = own u)
    (hnext : ∀ w, next' w u ↔ next w u) : Level own' next' val' u := by
  unfold Level
  rw [hval, asks_congr hown hnext fun _ _ => rfl]
  exact h

theorem Balanced.mono {S' : Set V} (h : Balanced own next val S) (hS : S' ⊆ S) :
    Balanced own next val S' :=
  fun v hv => h v (hS hv)

theorem Pending.mono {S' : Set V} (h : Pending own next val S v p) (hS : S' ⊆ S) :
    Pending own next val S' v p :=
  ⟨fun u hu => h.others u (hS hu), h.least⟩

theorem Pending.balanced (h : Pending own next val S v p) (hp : val v = p) :
    Balanced own next val S := by
  intro u hu
  by_cases he : u = v
  · subst he
    unfold Level
    rw [hp]
    exact h.least
  · exact h.others u hu he

/-! ## A new value -/

section

variable [DecidableEq V]

theorem Level.apart (h : Level own next val u) (hu : u ≠ v) (hv : ¬next v u) :
    Level own next (Function.update val v p) u := by
  unfold Level
  rw [Function.update_of_ne hu, asks_update hv]
  exact h

/-- A point above the new value inherits it. -/
theorem Level.raised (h : Level own next val u) (hv : next v u) (hp : p < val u) :
    IsLeast (asks own next (Function.update val v p) u) p := by
  refine ⟨.inr ⟨v, hv, Function.update_self ..⟩, ?_⟩
  rintro q (hq | ⟨w, hw, rfl⟩)
  · exact hp.le.trans (h.2 (.inl hq))
  · by_cases he : w = v
    · rw [he, Function.update_self]
    · rw [Function.update_of_ne he]
      exact hp.le.trans (h.2 (.inr ⟨w, hw, rfl⟩))

/-- A point that did not have the old value and is not above the new one. -/
theorem Level.stays (h : Level own next val u) (hu : u ≠ v) (hold : val u ≠ val v)
    (hp : val u ≤ p) :
    Level own next (Function.update val v p) u := by
  unfold Level
  rw [Function.update_of_ne hu]
  refine ⟨?_, ?_⟩
  · rcases h.1 with hown | ⟨w, hw, he⟩
    · exact .inl hown
    · refine .inr ⟨w, hw, ?_⟩
      rw [Function.update_of_ne fun e => hold ((e ▸ he).symm), he]
  · rintro q (hq | ⟨w, hw, rfl⟩)
    · exact h.2 (.inl hq)
    · by_cases he : w = v
      · rw [he, Function.update_self]
        exact hp
      · rw [Function.update_of_ne he]
        exact h.2 (.inr ⟨w, hw, rfl⟩)

/-- The value of `v` is written, and nobody follows. -/
theorem Pending.last (h : Pending own next val S v p) (hv : ∀ u ∈ S, ¬next v u)
    (hself : ¬next v v) :
    Balanced own next (Function.update val v p) S := by
  intro u hu
  by_cases he : u = v
  · subst he
    unfold Level
    rw [Function.update_self, asks_update hself]
    exact h.least
  · exact (h.others u hu he).apart he (hv u hu)

/-- The value of `v` is written, and `u` is the one that it follows. -/
theorem Pending.write (h : Pending own next val S v p) (hself : ¬next v v)
    (hnext : ∀ w ∈ S, next v w → w = u) :
    ∀ w ∈ S, w ≠ u → Level own next (Function.update val v p) w := by
  intro w hw hne
  by_cases he : w = v
  · subst he
    unfold Level
    rw [Function.update_self, asks_update hself]
    exact h.least
  · exact (h.others w hw he).apart he fun hv => hne (hnext w hw hv)

theorem Pending.raise (h : Pending own next val S v p) (hself : ¬next v v)
    (hnext : ∀ w ∈ S, next v w → w = u) (hu : u ∈ S) (hv : next v u) (hp : p < val u) :
    Pending own next (Function.update val v p) S u p :=
  ⟨h.write hself hnext, (h.others u hu fun e => hself (e ▸ hv)).raised hv hp⟩

theorem Pending.settle (h : Pending own next val S v p) (hself : ¬next v v)
    (hnext : ∀ w ∈ S, next v w → w = u) (hv : next v u) (hold : val u ≠ val v) (hp : val u ≤ p) :
    Balanced own next (Function.update val v p) S := by
  intro w hw
  by_cases he : w = u
  · subst he
    have hne : w ≠ v := fun e => hself (e ▸ hv)
    exact (h.others w hw hne).stays hne hold hp
  · exact h.write hself hnext w hw he

end

/-! ## Chains -/

section

open Relation

theorem chain_mem {w : V} (hS : ∀ v ∈ S, ∀ w, next w v → w ∈ S) (hv : v ∈ S)
    (hw : ReflTransGen next w v) : w ∈ S := by
  induction hw with
  | refl => exact hv
  | @tail a b _ hab ih => exact ih (hS b hv a hab)

/-- A point is not above those that come to it along a chain. -/
theorem Balanced.chain_le {w : V} (h : Balanced own next val S)
    (hS : ∀ v ∈ S, ∀ w, next w v → w ∈ S) (hv : v ∈ S) (hw : ReflTransGen next w v) :
    val v ≤ val w := by
  induction hw with
  | refl => exact le_rfl
  | @tail a b _ hab ih => exact ((h b hv).2 (.inr ⟨a, hab, rfl⟩)).trans (ih (hS b hv a hab))

/-- The points of a circle have one value. -/
theorem Balanced.circle {w : V} (h : Balanced own next val S) (hS : ∀ v ∈ S, ∀ w, next w v → w ∈ S)
    (hv : v ∈ S) (hw : ReflTransGen next w v) (hback : ReflTransGen next v w) : val w = val v := by
  exact (h.chain_le hS (chain_mem hS hv hw) hback).antisymm (h.chain_le hS hv hw)

/-- A point that no circle leads to inherits exactly what the points of its chains have on their
own. -/
theorem Balanced.chain_least (h : Balanced own next val S) (hS : ∀ v ∈ S, ∀ w, next w v → w ∈ S)
    (hacc : Acc next v) (hv : v ∈ S) :
    IsLeast {p | ∃ w, ReflTransGen next w v ∧ p ∈ own w} (val v) := by
  refine ⟨?_, ?_⟩
  · induction hacc with
    | intro v _ ih =>
      rcases (h v hv).1 with hown | ⟨w, hw, he⟩
      · exact ⟨v, .refl, hown⟩
      · obtain ⟨x, hx, hp⟩ := ih w hw (hS v hv w hw)
        exact ⟨x, hx.tail hw, he ▸ hp⟩
  · rintro p ⟨w, hw, hp⟩
    exact (h.chain_le hS hv hw).trans ((h w (chain_mem hS hv hw)).2 (.inl hp))

/-- Among finitely many points a chain that never comes back to a point ends. -/
theorem acc_of_acyclic {F : Finset V} (hF : ∀ w u, next w u → w ∈ F)
    (hback : ∀ w, ReflTransGen next w v → ¬TransGen next w w) : Acc next v := by
  classical
  have hcard : ∀ n v, (F.filter fun w => TransGen next w v).card ≤ n →
      (∀ w, ReflTransGen next w v → ¬TransGen next w w) → Acc next v := by
    intro n
    induction n with
    | zero =>
      intro v hn _
      refine .intro v fun w hw => ?_
      have hmem : w ∈ F.filter fun w => TransGen next w v :=
        Finset.mem_filter.mpr ⟨hF w v hw, .single hw⟩
      have hpos := Finset.card_pos.mpr ⟨w, hmem⟩
      omega
    | succ n ih =>
      intro v hn hv
      refine .intro v fun u hu => ih u ?_ fun w hw => hv w (hw.tail hu)
      have hlt : (F.filter fun w => TransGen next w u).card < (F.filter fun w =>
          TransGen next w v).card := by
        refine Finset.card_lt_card (Finset.ssubset_iff_subset_ne.mpr ⟨fun w hw => ?_, fun he => ?_⟩)
        · obtain ⟨hw, hwu⟩ := Finset.mem_filter.mp hw
          exact Finset.mem_filter.mpr ⟨hw, hwu.tail hu⟩
        · have hmem : u ∈ F.filter fun w => TransGen next w v :=
            Finset.mem_filter.mpr ⟨hF u v hu, .single hu⟩
          rw [← he] at hmem
          exact hv u (.single hu) (Finset.mem_filter.mp hmem).2
      omega
  exact hcard _ v le_rfl hback

end

/-! ## Who follows whom -/

theorem Level.leave (h : Level own next val u) (hnext : ∀ w, next' w u ↔ next w u ∧ w ≠ v)
    (hold : next v u → val u ≠ val v) : Level own next' val u := by
  refine ⟨?_, ?_⟩
  · rcases h.1 with hown | ⟨w, hw, he⟩
    · exact .inl hown
    · refine .inr ⟨w, (hnext w).mpr ⟨hw, ?_⟩, he⟩
      rintro rfl
      exact hold hw he.symm
  · rintro q (hq | ⟨w, hw, rfl⟩)
    · exact h.2 (.inl hq)
    · exact h.2 (.inr ⟨w, ((hnext w).mp hw).1, rfl⟩)

/-- What is new is not below the value `p`. -/
theorem Level.least (h : Level own next val u) (hp : p ∈ asks own' next' val u) (hle : p ≤ val u)
    (hown : ∀ q ∈ own' u, q ∈ own u ∨ p ≤ q) (hnext : ∀ w, next' w u → next w u ∨ p ≤ val w) :
    IsLeast (asks own' next' val u) p := by
  refine ⟨hp, ?_⟩
  rintro q (hq | ⟨w, hw, rfl⟩)
  · exact (hown q hq).elim (fun hq => hle.trans (h.2 (.inl hq))) id
  · exact (hnext w hw).elim (fun hw => hle.trans (h.2 (.inr ⟨w, hw, rfl⟩))) id

end Inherit
