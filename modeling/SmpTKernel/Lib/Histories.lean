import Mathlib.Data.List.Basic
import Mathlib.Data.List.Induction
import Mathlib.Tactic.Common

/-!
# Histories

Histories as lists of events, oldest first: a history is right if every event is right after those
before it, and a summary of a history follows it event by event.
-/

namespace History

variable {E S : Type*} {R : List E → E → Prop} {log a b : List E} {e : E}

/-- Every event is right where it stands. -/
def Right (R : List E → E → Prop) (log : List E) : Prop := ∀ a e b, log = a ++ e :: b → R a e

theorem right_nil : Right R [] := by
  intro a e b h
  exact absurd h.symm (List.append_ne_nil_of_right_ne_nil a (List.cons_ne_nil e b))

theorem Right.left (h : Right R (a ++ b)) : Right R a := by
  intro c e d hcd
  apply h c e (d ++ b)
  rw [hcd, List.append_assoc, List.cons_append]

theorem Right.last (h : Right R (a ++ [e])) : R a e := h a e [] rfl

theorem Right.concat (h : Right R log) (he : R log e) : Right R (log ++ [e]) := by
  intro a e' b hab
  rcases List.eq_nil_or_concat' b with rfl | ⟨b, z, rfl⟩
  · obtain ⟨rfl, hlast⟩ := List.append_inj' hab rfl
    obtain rfl := List.singleton_inj.mp hlast
    exact he
  · rw [← List.cons_append, ← List.append_assoc] at hab
    exact h a e' b (List.append_inj' hab rfl).1

/-! ## Summaries -/

variable (step : S → E → S) (s : S)

/-- The summary of a history, from `s` on. -/
def summary (log : List E) : S := log.foldl step s

@[simp] theorem summary_concat : summary step s (log ++ [e]) = step (summary step s log) e :=
  List.foldl_append

theorem summary_append : summary step s (a ++ b) = summary step (summary step s a) b :=
  List.foldl_append

variable {step s}

/-- Where the summary has a property that it does not have at first, there is an event after which
it has had it all along. -/
theorem exists_since {P : S → Prop} (h₀ : ¬P s) (h : P (summary step s log)) :
    ∃ a e b, log = a ++ e :: b ∧ ¬P (summary step s a) ∧
      ∀ b₁ b₂, b = b₁ ++ b₂ → P (summary step s (a ++ e :: b₁)) := by
  induction log using List.reverseRecOn with
  | nil => exact absurd h h₀
  | append_singleton log x ih =>
    by_cases hp : P (summary step s log)
    · obtain ⟨a, e, b, rfl, ha, hb⟩ := ih hp
      refine ⟨a, e, b ++ [x], by rw [List.append_assoc, List.cons_append], ha,
        fun b₁ b₂ hsplit => ?_⟩
      rcases List.eq_nil_or_concat' b₂ with rfl | ⟨b₂, z, rfl⟩
      · rw [List.append_nil] at hsplit
        rwa [← hsplit, ← List.cons_append, ← List.append_assoc]
      · rw [← List.append_assoc] at hsplit
        exact hb b₁ b₂ (List.append_inj' hsplit rfl).1
    · refine ⟨log, x, [], rfl, hp, fun b₁ b₂ hsplit => ?_⟩
      rw [(List.append_eq_nil_iff.mp hsplit.symm).1]
      exact h

/-- Events that are right one after the other, from a summary on. -/
def RightFrom (step : S → E → S) (R : S → E → Prop) : S → List E → Prop
  | _, [] => True
  | s, e :: b => R s e ∧ RightFrom step R (step s e) b

theorem Right.append {R : S → E → Prop} (h : Right (fun a => R (summary step s a)) log)
    (hb : RightFrom step R (summary step s log) b) :
    Right (fun a => R (summary step s a)) (log ++ b) := by
  induction b generalizing log with
  | nil => rwa [List.append_nil]
  | cons e b ih =>
    rw [List.append_cons]
    apply ih (h.concat hb.1)
    rw [summary_concat]
    exact hb.2

theorem RightFrom.append {R : S → E → Prop} (ha : RightFrom step R s a)
    (hb : RightFrom step R (summary step s a) b) :
    RightFrom step R s (a ++ b) := by
  induction a generalizing s with
  | nil => exact hb
  | cons e a ih => exact ⟨ha.1, ih ha.2 hb⟩

end History
