import Mathlib.Data.List.Nodup
import Mathlib.Logic.Function.Basic
import Mathlib.Tactic.Common
import SmpTKernel.Lib.Fuel

/-!
# Linked stacks

Stacks of nodes that share one successor field: the stack of `t` begins at `top t` and goes on
through `next` up to its end. A node is in one stack at most. Pushing a node that is in none,
popping and removal keep this.
-/

namespace LinkedStack

variable {N T : Type*} {next next' : N → Option N} {p : Option N} {x : N} {l l' : List N}

/-- The nodes from `p` on, first one first. -/
def IsStack (next : N → Option N) : Option N → List N → Prop
  | p, [] => p = none
  | p, x :: l => p = some x ∧ IsStack next (next x) l

theorem IsStack.top (h : IsStack next p l) : p = l.head? := by
  cases l with
  | nil => exact h
  | cons x l => exact h.1

theorem IsStack.unique (h : IsStack next p l) (h' : IsStack next p l') : l = l' := by
  induction l generalizing p l' with
  | nil =>
    rcases l' with _ | ⟨y, l'⟩
    · rfl
    · exact absurd (h.symm.trans h'.1) (Option.some_ne_none y).symm
  | cons x l ih =>
    rcases l' with _ | ⟨y, l'⟩
    · exact absurd (h'.symm.trans h.1) (Option.some_ne_none x).symm
    · obtain rfl := Option.some.inj (h.1.symm.trans h'.1)
      rw [ih h.2 h'.2]

/-- A stack is read through its own nodes only. -/
theorem IsStack.congr (h : IsStack next p l) (hn : ∀ x ∈ l, next' x = next x) :
    IsStack next' p l := by
  induction l generalizing p with
  | nil => exact h
  | cons x l ih =>
    refine ⟨h.1, ?_⟩
    rw [hn x List.mem_cons_self]
    exact ih h.2 fun y hy => hn y (List.mem_cons_of_mem x hy)

theorem IsStack.snoc (h : IsStack next p (l ++ [x])) {y : N} (hx : next' x = some y)
    (hy : next' y = none) (hn : ∀ z ∈ l, next' z = next z) : IsStack next' p (l ++ [x] ++ [y]) := by
  induction l generalizing p with
  | nil => exact ⟨h.1, hx, hy⟩
  | cons z l ih =>
    refine ⟨h.1, ?_⟩
    rw [hn z List.mem_cons_self]
    exact ih h.2 fun w hw => hn w (List.mem_cons_of_mem z hw)

/-- The nodes from `p` on, read through `next`. -/
def walk (next : N → Option N) : ℕ → Option N → Option (List N)
  | 0, _ => none
  | _ + 1, none => some []
  | fuel + 1, some x => (walk next fuel (next x)).map (x :: ·)

theorem IsStack.walk (h : IsStack next p l) : Fuel.Returns (fun fuel => walk next fuel p) l := by
  induction l generalizing p with
  | nil =>
    obtain rfl : p = none := h
    refine ⟨1, fun k hk => ?_⟩
    obtain ⟨k, rfl⟩ := Nat.exists_eq_add_of_le' hk
    rfl
  | cons x l ih =>
    obtain rfl := h.1
    exact ((ih h.2).map (x :: ·)).turn fun _ => rfl

/-- The stack of every `t` has the nodes `q t`. -/
structure Stacks (next : N → Option N) (top : T → Option N) (q : T → List N) : Prop where
  stack : ∀ t, IsStack next (top t) (q t)
  nodup : ∀ t, (q t).Nodup
  disj : ∀ t u x, x ∈ q t → x ∈ q u → t = u

variable {top : T → Option N} {q q' : T → List N} {t u : T}

theorem Stacks.top_eq (h : Stacks next top q) (t : T) : top t = (q t).head? := (h.stack t).top

theorem stacks_nil (next : N → Option N) : Stacks next (fun _ : T => none) fun _ => [] :=
  ⟨fun _ => rfl, fun _ => List.nodup_nil, fun _ _ _ h => absurd h List.not_mem_nil⟩

variable [DecidableEq T]

theorem mem_update_pop (e : q t = x :: l) {y : N} (h : y ∈ Function.update q t l u) : y ∈ q u := by
  by_cases hu : u = t
  · subst hu
    rw [Function.update_self] at h
    rw [e]
    exact List.mem_cons_of_mem x h
  · rwa [Function.update_of_ne hu] at h

/-- **Pop.** -/
theorem Stacks.pop (h : Stacks next top q) (e : q t = x :: l) :
    Stacks next (Function.update top t (next x)) (Function.update q t l) := by
  have hs := h.stack t
  have hn := h.nodup t
  rw [e] at hs hn
  refine ⟨fun u => ?_, fun u => ?_, fun u v y hu hv => h.disj u v y (mem_update_pop e hu)
    (mem_update_pop e hv)⟩
  · by_cases hu : u = t
    · subst hu
      rw [Function.update_self, Function.update_self]
      exact hs.2
    · rw [Function.update_of_ne hu, Function.update_of_ne hu]
      exact h.stack u
  · by_cases hu : u = t
    · subst hu
      rw [Function.update_self]
      exact (List.nodup_cons.mp hn).2
    · rw [Function.update_of_ne hu]
      exact h.nodup u

theorem Stacks.not_mem_of_pop (h : Stacks next top q) (e : q t = x :: l) (u : T) :
    x ∉ Function.update q t l u := by
  have hn := h.nodup t
  rw [e] at hn
  by_cases hu : u = t
  · subst hu
    rw [Function.update_self]
    exact (List.nodup_cons.mp hn).1
  · rw [Function.update_of_ne hu]
    intro hx
    exact hu (h.disj u t x hx (e ▸ List.mem_cons_self))

theorem mem_update_push {y : N} : y ∈ Function.update q t (x :: q t) u ↔ u = t ∧ y = x ∨
    y ∈ q u := by
  by_cases hu : u = t
  · subst hu
    rw [Function.update_self, List.mem_cons]
    exact or_congr_left (and_iff_right rfl).symm
  · rw [Function.update_of_ne hu]
    exact (or_iff_right fun h => hu h.1).symm

variable [DecidableEq N]

/-- **Push.** -/
theorem Stacks.push (h : Stacks next top q) (hx : ∀ u, x ∉ q u) (t : T) :
    Stacks (Function.update next x (top t)) (Function.update top t (some x))
      (Function.update q t (x :: q t)) := by
  have hsame (u : T) : IsStack (Function.update next x (top t)) (top u) (q u) :=
    (h.stack u).congr fun y hy => Function.update_of_ne (ne_of_mem_of_not_mem hy (hx u)) _ _
  refine ⟨fun u => ?_, fun u => ?_, fun u v y hu hv => ?_⟩
  · by_cases hu : u = t
    · subst hu
      rw [Function.update_self, Function.update_self]
      refine ⟨rfl, ?_⟩
      rw [Function.update_self]
      exact hsame u
    · rw [Function.update_of_ne hu, Function.update_of_ne hu]
      exact hsame u
  · by_cases hu : u = t
    · subst hu
      rw [Function.update_self]
      exact List.nodup_cons.mpr ⟨hx u, h.nodup u⟩
    · rw [Function.update_of_ne hu]
      exact h.nodup u
  · rcases mem_update_push.mp hu with ⟨hut, hy⟩ | hu' <;> rcases mem_update_push.mp hv with
      ⟨hvt, hy'⟩ | hv'
    · rw [hut, hvt]
    · exact absurd (hy ▸ hv') (hx v)
    · exact absurd (hy' ▸ hu') (hx u)
    · exact h.disj u v y hu' hv'

/-! ## Removal -/

/-- Where a successor is written: at the top of a stack, or in a node. -/
inductive Slot (N T : Type*)
  | top (t : T)
  | next (x : N)

namespace Slot

def read (next : N → Option N) (top : T → Option N) : Slot N T → Option N
  | .top t => top t
  | .next x => next x

def write (next : N → Option N) (top : T → Option N) (p : Option N) : Slot N T →
    (N → Option N) × (T → Option N)
  | .top t => (next, Function.update top t p)
  | .next x => (Function.update next x p, top)

end Slot

/-- From the slot on, the first one that has `x` is given what comes after `x`. -/
def unlink (next : N → Option N) (top : T → Option N) (x : N) : ℕ → Slot N T →
    Option ((N → Option N) × (T → Option N))
  | 0, _ => none
  | fuel + 1, slot =>
    match slot.read next top with
    | none => some (next, top)
    | some y =>
      if y = x then some (slot.write next top (next x)) else unlink next top x fuel (.next y)

theorem IsStack.splice {y : N} (h : IsStack next p (l ++ y :: x :: l'))
    (hn : (l ++ y :: x :: l').Nodup) :
    IsStack (Function.update next y (next x)) p (l ++ y :: l') := by
  induction l generalizing p with
  | nil =>
    obtain ⟨hy, -, hl'⟩ := h
    obtain ⟨hyx, -⟩ := List.nodup_cons.mp hn
    refine ⟨hy, ?_⟩
    rw [Function.update_self]
    refine hl'.congr fun z hz => Function.update_of_ne ?_ ..
    rintro rfl
    exact hyx (List.mem_cons_of_mem x hz)
  | cons z l ih =>
    obtain ⟨hzl, hn⟩ := List.nodup_cons.mp hn
    have hzy : z ≠ y := by
      rintro rfl
      exact hzl (List.mem_append_right l List.mem_cons_self)
    refine ⟨h.1, ?_⟩
    rw [Function.update_of_ne hzy]
    exact ih h.2 hn

/-- The loop comes to the node before `x`. -/
theorem returns_unlink {y : N} {slot : Slot N T}
    (h : IsStack next (slot.read next top) (l ++ y :: x :: l')) (hl : x ∉ l) (hy : y ≠ x) :
    Fuel.Returns (fun fuel => unlink next top x fuel slot) (Function.update next y (next x),
      top) := by
  induction l generalizing slot with
  | nil =>
    obtain ⟨hread, hnext, -⟩ := h
    refine ⟨2, fun k hk => ?_⟩
    obtain ⟨k, rfl⟩ := Nat.exists_eq_add_of_le' hk
    show unlink next top x (k + 1 + 1) slot = _
    rw [unlink, hread]
    dsimp only
    rw [if_neg hy, unlink, Slot.read, hnext]
    exact if_pos rfl
  | cons z l ih =>
    have hread : slot.read next top = some z := h.1
    have hz : z ≠ x := fun hzx => hl (hzx ▸ List.mem_cons_self)
    have hrest : IsStack next ((Slot.next z : Slot N T).read next top) (l ++ y :: x :: l') := h.2
    refine (ih hrest fun hx => hl (List.mem_cons_of_mem z hx)).turn fun k => ?_
    show unlink next top x (k + 1) slot = _
    rw [unlink, hread]
    exact if_neg hz

/-- **Removal.** -/
theorem Stacks.unlink (h : Stacks next top q) (hx : x ∈ q t) :
    ∃ r, Fuel.Returns (fun fuel => LinkedStack.unlink next top x fuel (.top t)) r ∧
      Stacks r.1 r.2 (Function.update q t ((q t).erase x)) := by
  obtain ⟨l, l', e, hl⟩ := List.eq_append_cons_of_mem hx
  have hn := h.nodup t
  rw [e] at hn
  have herase : (q t).erase x = l ++ l' := by
    rw [e, List.erase_append_right _ hl, List.erase_cons_head]
  rw [herase]
  rcases List.eq_nil_or_concat' l with rfl | ⟨l, y, rfl⟩
  · refine ⟨(next, Function.update top t (next x)), ⟨1, fun k hk => ?_⟩, h.pop e⟩
    obtain ⟨k, rfl⟩ := Nat.exists_eq_add_of_le' hk
    have hread : (Slot.top t).read next top = some x := (h.top_eq t).trans (congrArg List.head? e)
    show LinkedStack.unlink next top x (k + 1) (.top t) = _
    rw [LinkedStack.unlink, hread]
    exact if_pos rfl
  · rw [List.append_assoc, List.singleton_append] at e hn
    have hstack : IsStack next ((Slot.top t : Slot N T).read next top) (q t) := h.stack t
    rw [e] at hstack
    rw [List.mem_append, List.mem_singleton, not_or] at hl
    refine ⟨_, returns_unlink hstack hl.1 (Ne.symm hl.2), fun u => ?_, fun u => ?_,
      fun u v z hu hv => ?_⟩
    · by_cases hut : u = t
      · subst hut
        rw [Function.update_self, List.append_assoc]
        exact hstack.splice hn
      · rw [Function.update_of_ne hut]
        refine (h.stack u).congr fun z hz => Function.update_of_ne ?_ ..
        rintro rfl
        exact hut (h.disj u t z hz (e ▸ List.mem_append_right l List.mem_cons_self))
    · by_cases hut : u = t
      · subst hut
        rw [Function.update_self, ← herase]
        exact (h.nodup u).erase x
      · rw [Function.update_of_ne hut]
        exact h.nodup u
    · have hmem {u : T} (hu : z ∈ Function.update q t (l ++ [y] ++ l') u) : z ∈ q u := by
        by_cases hut : u = t
        · subst hut
          rw [Function.update_self, ← herase] at hu
          exact List.mem_of_mem_erase hu
        · rwa [Function.update_of_ne hut] at hu
      exact h.disj u v z (hmem hu) (hmem hv)

end LinkedStack
