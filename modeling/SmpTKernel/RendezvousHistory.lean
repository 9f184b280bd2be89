import SmpTKernel.Rendezvous
import SmpTKernel.Lib.Histories
import Mathlib.Data.List.Count

/-!
# Histories of rendezvous

Where every task stands after a history of calls, acceptances, forwards and replies, and which event
may follow. In a right history a number is used up by the reply or forward that names it, and as
long as fewer than sixteen numbers follow it, it is not mistaken for another one.
-/

namespace SmpTKernel

open History

/-- Where a task is with its call. -/
inductive CalStatus
  | idle
  | calling (port : ℕ) (calptn : BitVec 32) (cmsgsz : ℤ)
  /-- The call is accepted under a number; a reply may have this size. -/
  | met (rdvno : BitVec 32) (maxrmsz : ℤ)
  deriving DecidableEq, Repr

/-- What a history comes to. -/
structure PorView where
  /-- The sizes `maxcmsz` and `maxrmsz` of the ports. -/
  limits : ℕ → ℤ × ℤ
  cal : Tsk → CalStatus
  /-- The port and the pattern of a task that waits to accept. -/
  acp : Tsk → Option (ℕ × BitVec 32)
  /-- How many numbers have been generated for a task. -/
  count : Tsk → ℕ

namespace PorView

def start : PorView where
  limits _ := (0, 0)
  cal _ := .idle
  acp _ := none
  count _ := 0

def setCal (v : PorView) (t : Tsk) (c : CalStatus) : PorView :=
  { v with cal := Function.update v.cal t c }

def setAcp (v : PorView) (t : Tsk) (a : Option (ℕ × BitVec 32)) : PorView :=
  { v with acp := Function.update v.acp t a }

def countUp (v : PorView) (t : Tsk) : PorView :=
  { v with count := Function.update v.count t (v.count t + 1) }

end PorView

def PorEvent.view (v : PorView) : PorEvent → PorView
  | creates p maxcmsz maxrmsz => { v with limits := Function.update v.limits p (maxcmsz, maxrmsz) }
  | calls t p calptn cmsgsz => v.setCal t (.calling p calptn cmsgsz)
  | asks t p acpptn => v.setAcp t (some (p, acpptn))
  | accepts a _ t p _ rdvno _ => ((v.setAcp a none).setCal t (.met rdvno (v.limits p).2)).countUp t
  | forwards _ t p calptn cmsgsz => v.setCal t (.calling p calptn cmsgsz)
  | replies _ t _ | callEnds t _ => v.setCal t .idle
  | askEnds t _ => v.setAcp t none

def viewOf (log : List PorEvent) : PorView := summary PorEvent.view PorView.start log

/-- The part of a number that counts. -/
def rdvnoCount (rdvno : BitVec 32) : ℕ := (rdvno.extractLsb' 12 4).toNat

/-- Acceptor and caller of an acceptance wait at the same port, their patterns meet, and the number
names the caller; what is copied is not longer than the port or the caller allows. -/
def PorView.Allows (v : PorView) : PorEvent → Prop
  | .creates _ _ _ => True
  | .calls t p _ cmsgsz => v.cal t = .idle ∧ cmsgsz ≤ (v.limits p).1
  | .asks t _ _ => v.acp t = none
  | .accepts a acpptn t p calptn rdvno cmsgsz =>
    v.acp a = some (p, acpptn) ∧ v.cal t = .calling p calptn cmsgsz ∧ calptn &&& acpptn ≠ 0 ∧
      cmsgsz ≤ (v.limits p).1 ∧ indexTsk (getTskidRdvno rdvno) = t ∧
      rdvnoCount rdvno = v.count t % 16
  | .forwards rdvno t p _ cmsgsz =>
    cmsgsz ≤ (v.limits p).1 ∧
      ∃ maxrmsz, v.cal t = .met rdvno maxrmsz ∧ cmsgsz ≤ maxrmsz ∧ (v.limits p).2 ≤ maxrmsz
  | .replies rdvno t rmsgsz => ∃ maxrmsz, v.cal t = .met rdvno maxrmsz ∧ rmsgsz ≤ maxrmsz
  | .callEnds t _ => v.cal t ≠ .idle
  | .askEnds t _ => v.acp t ≠ none

def AllowedAfter (log : List PorEvent) (e : PorEvent) : Prop := (viewOf log).Allows e

/-- The caller and the number of an acceptance. -/
def PorEvent.accepted : PorEvent → Option (Tsk × BitVec 32)
  | accepts _ _ t _ _ rdvno _ => some (t, rdvno)
  | _ => none

/-- The caller and the number of a reply or forward. -/
def PorEvent.consumed : PorEvent → Option (Tsk × BitVec 32)
  | forwards rdvno t _ _ _ => some (t, rdvno)
  | replies rdvno t _ => some (t, rdvno)
  | _ => none

/-- The rendezvous of `t` is over: replied to, forwarded or cancelled. -/
def PorEvent.Ends (t : Tsk) (e : PorEvent) : Prop :=
  (∃ rdvno, e.consumed = some (t, rdvno)) ∨ ∃ ercd, e = callEnds t ercd

/-- How many numbers are generated for `t`. -/
def acceptsOf (t : Tsk) (log : List PorEvent) : ℕ :=
  log.countP fun e => e.accepted.any fun x => x.1 = t

variable {log a b c : List PorEvent} {e e' : PorEvent} {v : PorView} {t : Tsk}
  {rdvno rdvno' : BitVec 32} {m : ℤ}

@[simp] theorem viewOf_concat : viewOf (log ++ [e]) = e.view (viewOf log) := summary_concat _ _

theorem viewOf_append : viewOf (a ++ b) = summary PorEvent.view (viewOf a) b := summary_append _ _

/-! ## Events and views -/

theorem met_of_view (h : (e.view v).cal t = .met rdvno m) (h' : v.cal t ≠ .met rdvno m) :
    e.accepted = some (t, rdvno) := by
  cases e with
  | creates p c r => exact absurd h h'
  | asks u p acpptn => exact absurd h h'
  | askEnds u ercd => exact absurd h h'
  | accepts a acpptn u p calptn r cmsgsz =>
    change Function.update v.cal u _ t = _ at h
    by_cases hu : t = u
    · subst hu
      rw [Function.update_self] at h
      obtain ⟨rfl, -⟩ := CalStatus.met.inj h
      rfl
    · rw [Function.update_of_ne hu] at h
      exact absurd h h'
  | calls u p calptn cmsgsz | forwards r u p calptn cmsgsz | replies r u rmsgsz | callEnds u ercd =>
    change Function.update v.cal u _ t = _ at h
    by_cases hu : t = u
    · subst hu
      rw [Function.update_self] at h
      exact CalStatus.noConfusion h
    · rw [Function.update_of_ne hu] at h
      exact absurd h h'

theorem not_met_of_ends (h : e.Ends t) : (e.view v).cal t ≠ .met rdvno m := by
  rcases h with ⟨r, h⟩ | ⟨ercd, rfl⟩
  · cases e with
    | forwards r' u p calptn cmsgsz =>
      obtain ⟨rfl, -⟩ := Prod.mk.inj (Option.some.inj h)
      show Function.update v.cal u _ u ≠ _
      rw [Function.update_self]
      exact CalStatus.noConfusion
    | replies r' u rmsgsz =>
      obtain ⟨rfl, -⟩ := Prod.mk.inj (Option.some.inj h)
      show Function.update v.cal u _ u ≠ _
      rw [Function.update_self]
      exact CalStatus.noConfusion
    | _ => exact nomatch h
  · show Function.update v.cal t _ t ≠ _
    rw [Function.update_self]
    exact CalStatus.noConfusion

theorem PorView.Allows.met (h : v.Allows e) (he : e.consumed = some (t, rdvno)) :
    ∃ m, v.cal t = .met rdvno m := by
  cases e with
  | forwards r u p calptn cmsgsz =>
    obtain ⟨rfl, rfl⟩ := Prod.mk.inj (Option.some.inj he)
    obtain ⟨-, m, hm, -⟩ := h
    exact ⟨m, hm⟩
  | replies r u rmsgsz =>
    obtain ⟨rfl, rfl⟩ := Prod.mk.inj (Option.some.inj he)
    obtain ⟨m, hm, -⟩ := h
    exact ⟨m, hm⟩
  | _ => exact nomatch he

theorem count_view : (e.view v).count t = v.count t + acceptsOf t [e] := by
  unfold acceptsOf
  cases e with
  | accepts a acpptn u p calptn r cmsgsz =>
    show Function.update v.count u (v.count u + 1) t = _
    by_cases hu : t = u
    · subst hu
      rw [Function.update_self, List.countP_singleton, if_pos]
      exact decide_eq_true rfl
    · rw [Function.update_of_ne hu, List.countP_singleton, if_neg]
      · rfl
      · exact fun h => hu (of_decide_eq_true h).symm
  | _ => rfl

theorem acceptsOf_append : acceptsOf t (a ++ b) = acceptsOf t a + acceptsOf t b :=
  List.countP_append

theorem count_summary : (summary PorEvent.view v b).count t = v.count t + acceptsOf t b := by
  induction b using List.reverseRecOn with
  | nil => rfl
  | append_singleton b e ih => rw [summary_concat, count_view, ih, acceptsOf_append, Nat.add_assoc]

theorem acceptsOf_of_accepted (h : e.accepted = some (t, rdvno)) : acceptsOf t [e] = 1 := by
  unfold acceptsOf
  rw [List.countP_singleton, h, if_pos]
  exact decide_eq_true rfl

/-! ## Right histories -/

/-- The number of an acceptance counts the acceptances before it. -/
theorem PorView.Allows.rdvnoCount (h : v.Allows e) (he : e.accepted = some (t, rdvno)) :
    rdvnoCount rdvno = v.count t % 16 := by
  cases e with
  | accepts a acpptn u p calptn r cmsgsz =>
    obtain ⟨rfl, rfl⟩ := Prod.mk.inj (Option.some.inj he)
    exact h.2.2.2.2.2
  | _ => exact nomatch he

/-- **A reply goes to its caller.** What a reply or forward names is the number of the last
acceptance of this caller, whose rendezvous has been under way since. -/
theorem consumed_accepted (h : Right AllowedAfter log) (hlog : log = a ++ e :: b)
    (he : e.consumed = some (t, rdvno)) :
    ∃ a₁ x a₂, a = a₁ ++ x :: a₂ ∧ x.accepted = some (t, rdvno) ∧ ∀ y ∈ a₂, ¬y.Ends t := by
  obtain ⟨m, hm⟩ := (h a e b hlog).met he
  obtain ⟨a₁, x, a₂, rfl, hnot, hsince⟩ :=
    exists_since (P := fun v : PorView => v.cal t = .met rdvno m)
    (fun h => CalStatus.noConfusion h) hm
  have hx := hsince [] a₂ rfl
  rw [summary_concat] at hx
  refine ⟨a₁, x, a₂, rfl, met_of_view hx hnot, fun y hy hends => ?_⟩
  obtain ⟨c₁, c₂, rfl⟩ := List.append_of_mem hy
  have hy := hsince (c₁ ++ [y]) c₂ (by rw [List.append_assoc, List.singleton_append])
  rw [← List.cons_append, ← List.append_assoc, summary_concat] at hy
  exact not_met_of_ends hends hy

/-- **A number is consumed once.** Before the next reply or forward for the same caller there is a
new acceptance, which returns the number that is consumed then. -/
theorem consumed_once (h : Right AllowedAfter log) (hlog : log = a ++ e :: (b ++ e' :: c))
    (he : e.consumed = some (t, rdvno)) (he' : e'.consumed = some (t, rdvno')) :
    ∃ x ∈ b, x.accepted = some (t, rdvno') := by
  have hlog' : log = (a ++ e :: b) ++ e' :: c := by rw [hlog, List.append_assoc, List.cons_append]
  obtain ⟨m, hm⟩ := (h _ e' c hlog').met he'
  rw [List.append_cons, viewOf_append, viewOf_concat] at hm
  obtain ⟨b₁, x, b₂, rfl, hnot, hsince⟩ :=
    exists_since (P := fun v : PorView => v.cal t = .met rdvno' m)
    (not_met_of_ends (Or.inl ⟨rdvno, he⟩)) hm
  refine ⟨x, List.mem_append_right b₁ List.mem_cons_self, met_of_view ?_ hnot⟩
  have hx := hsince [] b₂ rfl
  rwa [summary_concat] at hx

/-- **A number that is over is not current** while fewer than sixteen numbers follow it. -/
theorem not_met_of_over (h : Right AllowedAfter log) (hlog : log = a ++ e :: b)
    (he : e.accepted = some (t, rdvno)) (hover : ∃ x ∈ b, x.Ends t) (hfew : acceptsOf t b < 16)
    (m : ℤ) :
    (viewOf log).cal t ≠ .met rdvno m := by
  obtain ⟨x, hx, hends⟩ := hover
  obtain ⟨b₁, b₂, rfl⟩ := List.append_of_mem hx
  intro hm
  have hassoc : log = (a ++ e :: b₁ ++ [x]) ++ b₂ := by rw [hlog]; simp
  rw [hassoc, viewOf_append, viewOf_concat] at hm
  obtain ⟨c₁, e', c₂, rfl, hnot, hsince⟩ :=
    exists_since (P := fun v : PorView => v.cal t = .met rdvno m)
    (not_met_of_ends hends) hm
  have hx' := hsince [] c₂ rfl
  rw [summary_concat] at hx'
  have he' := met_of_view hx' hnot
  have hcount := (h a e _ hlog).rdvnoCount he
  have hsplit : log = ((a ++ e :: b₁ ++ [x]) ++ c₁) ++ e' :: c₂ := by rw [hassoc]; simp
  have hcount' := (h _ e' c₂ hsplit).rdvnoCount he'
  have hbetween : (viewOf ((a ++ e :: b₁ ++ [x]) ++ c₁)).count t =
      (viewOf a).count t + 1 + acceptsOf t (b₁ ++ x :: c₁) := by
    have hlist : (a ++ e :: b₁ ++ [x]) ++ c₁ = a ++ ([e] ++ (b₁ ++ x :: c₁)) := by simp
    rw [hlist, viewOf_append, count_summary, acceptsOf_append, acceptsOf_of_accepted he,
      Nat.add_assoc]
  have hall : acceptsOf t (b₁ ++ x :: (c₁ ++ e' :: c₂)) =
      acceptsOf t (b₁ ++ x :: c₁) + 1 + acceptsOf t c₂ := by
    have hlist : b₁ ++ x :: (c₁ ++ e' :: c₂) = (b₁ ++ x :: c₁) ++ ([e'] ++ c₂) := by simp
    rw [hlist, acceptsOf_append (a := b₁ ++ x :: c₁), acceptsOf_append (a := [e']),
      acceptsOf_of_accepted he', Nat.add_assoc]
  rw [hbetween] at hcount'
  omega

end SmpTKernel
