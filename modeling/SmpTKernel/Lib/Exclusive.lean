import Mathlib.Logic.Function.Basic
import Mathlib.Logic.Function.Iterate
import Mathlib.Logic.Relation
import Mathlib.Tactic.Common

/-!
# Exclusive loads and stores

Processors call routines that share one word. An exclusive store succeeds only if no other processor
has stored since the exclusive load, and may fail at any time. A routine is atomic when all it
stores is an update of the value that it loaded, and it returns then. The runs of atomic routines
are those in which every call takes effect in one step, between the call and its return.
-/

namespace Exclusive

variable {P V A C K : Type*}

/-- What is left of a routine. -/
inductive Prog (V A : Type*)
  | ret (a : A)
  /-- Back to the start. -/
  | retry
  | ldrex (k : V → Prog V A)
  /-- The rest learns whether the store has failed. -/
  | strex (v : V) (k : Bool → Prog V A)
  | str (v : V) (k : Prog V A)

/-- Routines and their callers. -/
structure Service (V A C K : Type*) where
  body : C → Prog V A
  /-- What a caller does as it calls, if it may. -/
  call : K → C → Option K
  ret : K → C → A → K
  /-- What a caller does without the word. -/
  own : K → K → Prop

/-- One processor: the routine it is in, if any, and its monitor. -/
structure Thread (V A C K : Type*) where
  client : K
  call : Option (C × Prog V A)
  mark : Bool

structure Machine (P V A C K : Type*) where
  cell : V
  thread : P → Thread V A C K

variable [DecidableEq P]

namespace Machine

def set (s : Machine P V A C K) (p : P) (t : Thread V A C K) : Machine P V A C K :=
  { s with thread := Function.update s.thread p t }

/-- A store clears the monitors of the others. -/
def store (s : Machine P V A C K) (p : P) (v : V) (t : Thread V A C K) : Machine P V A C K where
  cell := v
  thread q := if q = p then t else { s.thread q with mark := false }

/-- Nobody has called. -/
def start (v : V) (k : K) : Machine P V A C K where
  cell := v
  thread _ := ⟨k, none, false⟩

theorem set_self (s : Machine P V A C K) (p : P) (t : Thread V A C K) : (s.set p t).thread p = t :=
  Function.update_self ..

theorem store_self (s : Machine P V A C K) (p : P) (v : V) (t : Thread V A C K) :
    (s.store p v t).thread p = t := if_pos rfl

end Machine

/-- One access to the word, a call or a return. -/
inductive Step (S : Service V A C K) (s : Machine P V A C K) : Machine P V A C K → Prop
  | own (p : P) (k : K) : (s.thread p).call = none → S.own (s.thread p).client k →
      Step S s (s.set p { s.thread p with client := k })
  | call (p : P) (c : C) (k : K) :
      (s.thread p).call = none → S.call (s.thread p).client c = some k →
      Step S s (s.set p { s.thread p with client := k, call := some (c, S.body c) })
  | ret (p : P) (c : C) (a : A) : (s.thread p).call = some (c, .ret a) →
      Step S s (s.set p { s.thread p with client := S.ret (s.thread p).client c a, call := none })
  | retry (p : P) (c : C) : (s.thread p).call = some (c, .retry) →
      Step S s (s.set p { s.thread p with call := some (c, S.body c) })
  | ldrex (p : P) (c : C) (k : V → Prog V A) : (s.thread p).call = some (c, .ldrex k) →
      Step S s (s.set p { s.thread p with call := some (c, k s.cell), mark := true })
  | strex (p : P) (c : C) (v : V) (k : Bool → Prog V A) : (s.thread p).call = some (c, .strex v k) →
      (s.thread p).mark = true →
      Step S s (s.store p v { s.thread p with call := some (c, k false), mark := false })
  | fail (p : P) (c : C) (v : V) (k : Bool → Prog V A) : (s.thread p).call = some (c, .strex v k) →
      Step S s (s.set p { s.thread p with call := some (c, k true), mark := false })
  | str (p : P) (c : C) (v : V) (k : Prog V A) : (s.thread p).call = some (c, .str v k) →
      Step S s (s.store p v { s.thread p with call := some (c, k) })

/-! ## Atomic routines -/

/-- What the routines are to do. -/
structure Spec (V A C K : Type*) extends Service V A C K where
  upd : C → V → Option V
  /-- The return value, by the value that was found. -/
  res : C → V → A
  /-- The return values without effect. -/
  gives : C → A → Prop

/-- There is only the return. -/
def After (x : A) : Prog V A → Prop
  | .ret a => a = x
  | _ => False

/-- Before the effect, with the value that the last exclusive load found. A value that need not be
changed is an effect as soon as it is loaded. -/
def Before (S : Spec V A C K) (c : C) : Option V → Prog V A → Prop
  | _, .ret a => S.gives c a
  | _, .retry => True
  | _, .ldrex k => ∀ v, Before S c (some v) (k v) ∨ S.upd c v = some v ∧ After (S.res c v) (k v)
  | some v, .strex v' k => S.upd c v = some v' ∧ After (S.res c v) (k false) ∧
      Before S c none (k true)
  | none, .strex _ _ => False
  | _, .str v' k => ∀ v, S.upd c v = some v' ∧ After (S.res c v) k

/-- Every routine is atomic. -/
def Spec.Atomic (S : Spec V A C K) : Prop := ∀ c, Before S c none (S.body c)

/-- The processors with atomic effects; `pending` is a call that has not taken effect. -/
structure Atom (P V C K : Type*) where
  cell : V
  client : P → K
  pending : P → Option C

inductive AtomStep (S : Spec V A C K) (a : Atom P V C K) : Atom P V C K → Prop
  | own (p : P) (k : K) : a.pending p = none → S.own (a.client p) k →
      AtomStep S a ⟨a.cell, Function.update a.client p k, Function.update a.pending p none⟩
  | call (p : P) (c : C) (k : K) : a.pending p = none → S.call (a.client p) c = some k →
      AtomStep S a ⟨a.cell, Function.update a.client p k, Function.update a.pending p (some c)⟩
  | effect (p : P) (c : C) (v : V) : a.pending p = some c → S.upd c a.cell = some v →
      AtomStep S a ⟨v, Function.update a.client p (S.ret (a.client p) c (S.res c a.cell)),
        Function.update a.pending p none⟩
  | giveUp (p : P) (c : C) (x : A) : a.pending p = some c → S.gives c x →
      AtomStep S a ⟨a.cell, Function.update a.client p (S.ret (a.client p) c x),
        Function.update a.pending p none⟩

/-! ## The simulation -/

variable {S : Spec V A C K} {s s' : Machine P V A C K} {a a' : Atom P V C K} {t : Thread V A C K}
  {v v' : V} {p : P} {c : C} {k : K} {o : Option C}

/-- What a processor has, with an effect counted from the moment it is made: what the caller knows,
and the call that has no effect yet. What a routine loaded is still there unless the monitor was
cleared. -/
inductive Thread.Sim (S : Spec V A C K) (cell : V) (t : Thread V A C K) : K → Option C → Prop
  | out : t.call = none → Thread.Sim S cell t t.client none
  | before (c : C) (rest : Prog V A) (o : Option V) : t.call = some (c, rest) → Before S c o rest →
      (t.mark = true → ∀ v ∈ o, v = cell) → Thread.Sim S cell t t.client (some c)
  | after (c : C) (rest : Prog V A) (v : V) : t.call = some (c, rest) → After (S.res c v) rest →
      Thread.Sim S cell t (S.ret t.client c (S.res c v)) none

structure Machine.Sim (S : Spec V A C K) (s : Machine P V A C K) (a : Atom P V C K) : Prop where
  cell : a.cell = s.cell
  thread : ∀ p, (s.thread p).Sim S s.cell (a.client p) (a.pending p)

theorem Thread.Sim.unmark (h : t.Sim S v k o) : Thread.Sim S v' { t with mark := false } k o := by
  cases h with
  | out hc => exact .out (t := { t with mark := false }) hc
  | before c rest o hc ho hm =>
    exact .before (t := { t with mark := false }) c rest o hc ho fun hf =>
      absurd hf Bool.false_ne_true
  | after c rest w hc ha => exact .after (t := { t with mark := false }) c rest w hc ha

theorem Thread.Sim.of_none (h : t.Sim S v k o) (hc : t.call = none) : k = t.client ∧ o = none := by
  cases h with
  | out => exact ⟨rfl, rfl⟩
  | before c rest _ hc' => exact absurd (hc.symm.trans hc').symm (Option.some_ne_none _)
  | after c rest _ hc' => exact absurd (hc.symm.trans hc').symm (Option.some_ne_none _)

theorem Thread.Sim.of_pending (h : t.Sim S v k o) (ho : o = some c) :
    k = t.client ∧ ∃ rest, t.call = some (c, rest) := by
  cases h with
  | out => exact absurd ho.symm (Option.some_ne_none c)
  | before c' rest _ hc =>
    obtain rfl := Option.some.inj ho
    exact ⟨rfl, rest, hc⟩
  | after => exact absurd ho.symm (Option.some_ne_none c)

theorem After.eq {x : A} {rest : Prog V A} (h : After x rest) : rest = .ret x := by
  cases rest with
  | ret a => exact congrArg Prog.ret h
  | retry => exact absurd h id
  | ldrex k => exact absurd h id
  | strex v k => exact absurd h id
  | str v k => exact absurd h id

/-- What a processor has, from its point of view. -/
theorem Thread.Sim.held (h : t.Sim S v k o) : k = t.client ∨
    ∃ c w, t.call = some (c, .ret (S.res c w)) ∧ k = S.ret t.client c (S.res c w) := by
  cases h with
  | out => exact .inl rfl
  | before => exact .inl rfl
  | after c rest w hc ha => exact .inr ⟨c, w, ha.eq ▸ hc, rfl⟩

/-- With more to do than to return a call has had no effect. -/
theorem Thread.Sim.of_not_after {rest : Prog V A} (h : t.Sim S v k o) (hc : t.call = some (c, rest))
    (hrest : ∀ x, ¬After x rest) :
    k = t.client ∧ o = some c ∧ ∃ w, Before S c w rest ∧ (t.mark = true → ∀ v' ∈ w, v' = v) := by
  cases h with
  | out hc' => exact absurd (hc'.symm.trans hc).symm (Option.some_ne_none _)
  | before c' rest' w hc' hw hm =>
    obtain ⟨rfl, rfl⟩ := Prod.mk.inj (Option.some.inj (hc.symm.trans hc'))
    exact ⟨rfl, rfl, w, hw, hm⟩
  | after c' rest' w hc' ha =>
    obtain ⟨rfl, rfl⟩ := Prod.mk.inj (Option.some.inj (hc.symm.trans hc'))
    exact absurd ha (hrest _)

namespace Machine.Sim

theorem set (h : s.Sim S a) (ht : t.Sim S s.cell k o) :
    (s.set p t).Sim S ⟨s.cell, Function.update a.client p k, Function.update a.pending p o⟩ := by
  refine ⟨rfl, fun q => ?_⟩
  change (Function.update s.thread p t q).Sim S s.cell (Function.update a.client p k q)
    (Function.update a.pending p o q)
  by_cases hq : q = p
  · subst hq
    rwa [Function.update_self, Function.update_self, Function.update_self]
  · rw [Function.update_of_ne hq, Function.update_of_ne hq, Function.update_of_ne hq]
    exact h.thread q

theorem store (h : s.Sim S a) (ht : t.Sim S v k o) :
    (s.store p v t).Sim S ⟨v, Function.update a.client p k, Function.update a.pending p o⟩ := by
  refine ⟨rfl, fun q => ?_⟩
  change (if q = p then t else { s.thread q with mark := false }).Sim S v
    (Function.update a.client p k q)
    (Function.update a.pending p o q)
  by_cases hq : q = p
  · subst hq
    rwa [if_pos rfl, Function.update_self, Function.update_self]
  · rw [if_neg hq, Function.update_of_ne hq, Function.update_of_ne hq]
    exact (h.thread q).unmark

theorem stay (h : s.Sim S a) (ht : t.Sim S s.cell (a.client p) (a.pending p)) :
    (s.set p t).Sim S a := by
  have hset := h.set (p := p) ht
  rwa [Function.update_eq_self, Function.update_eq_self, ← h.cell] at hset

end Machine.Sim

/-- **Atomicity.** A step of the processors changes nothing for the callers, or is a step of
theirs. -/
theorem Step.simulates (hS : S.Atomic) (h : s.Sim S a) (step : Step S.toService s s') :
    ∃ a', s'.Sim S a' ∧ (a' = a ∨ AtomStep S a a') := by
  have hcell := h.cell
  cases step with
  | own p k hcall hown =>
    obtain ⟨hk, ho⟩ := (h.thread p).of_none hcall
    have hstep := AtomStep.own (a := a) p k ho (hk.symm ▸ hown)
    rw [hcell] at hstep
    exact ⟨_, h.set (.out (t := { s.thread p with client := k }) hcall), .inr hstep⟩
  | call p c k hcall hk' =>
    obtain ⟨hk, ho⟩ := (h.thread p).of_none hcall
    have hstep := AtomStep.call (a := a) p c k ho (hk.symm ▸ hk')
    rw [hcell] at hstep
    exact ⟨_, h.set (.before (t := { s.thread p with client := k, call := some (c, S.body c) }) c _
      none rfl (hS c)
      fun _ v hv => absurd hv (Option.not_mem_none v)), .inr hstep⟩
  | ret p c x hcall =>
    have hp := h.thread p
    generalize hk : a.client p = k at hp
    generalize ho : a.pending p = o at hp
    have hout :
      Thread.Sim S s.cell { s.thread p with client := S.ret (s.thread p).client c x, call := none }
        (S.ret (s.thread p).client c x) none :=
      .out (t := { s.thread p with client := S.ret (s.thread p).client c x, call := none }) rfl
    cases hp with
    | out hc => exact absurd (hc.symm.trans hcall).symm (Option.some_ne_none _)
    | before c' rest w hc hw =>
      obtain ⟨rfl, rfl⟩ := Prod.mk.inj (Option.some.inj (hcall.symm.trans hc))
      have hgives : S.gives c x := by
        cases w <;> exact hw
      have hstep := AtomStep.giveUp (a := a) p c x ho hgives
      rw [hk, hcell] at hstep
      exact ⟨_, h.set hout, .inr hstep⟩
    | after c' rest w hc ha =>
      obtain ⟨rfl, rfl⟩ := Prod.mk.inj (Option.some.inj (hcall.symm.trans hc))
      obtain rfl : x = S.res c w := ha
      refine ⟨a, h.stay ?_, .inl rfl⟩
      rw [hk, ho]
      exact hout
  | retry p c hcall =>
    obtain ⟨hk, ho, -⟩ := (h.thread p).of_not_after hcall fun _ => id
    refine ⟨a, h.stay ?_, .inl rfl⟩
    rw [hk, ho]
    exact .before (t := { s.thread p with call := some (c, S.body c) }) c _ none rfl (hS c)
      fun _ v hv => absurd hv (Option.not_mem_none v)
  | ldrex p c load hcall =>
    obtain ⟨hk, ho, w, hw, -⟩ := (h.thread p).of_not_after hcall fun _ => id
    have hnext : Before S c (some s.cell) (load s.cell) ∨
        S.upd c s.cell = some s.cell ∧ After (S.res c s.cell) (load s.cell) := by
      cases w <;> exact hw s.cell
    rcases hnext with hbefore | ⟨hupd, hafter⟩
    · refine ⟨a, h.stay ?_, .inl rfl⟩
      rw [hk, ho]
      exact .before (t := { s.thread p with call := some (c, load s.cell), mark := true }) c _
        (some s.cell) rfl hbefore
        fun _ v hv => (Option.some.inj hv).symm
    · have hupd' : S.upd c a.cell = some s.cell := by rw [hcell]; exact hupd
      have hstep := AtomStep.effect (a := a) p c s.cell ho hupd'
      rw [hk, hcell] at hstep
      exact ⟨_, h.set (.after (t := { s.thread p with call := some (c, load s.cell), mark := true })
        c _ s.cell rfl hafter), .inr hstep⟩
  | strex p c v k hcall hmark =>
    obtain ⟨hk, ho, w, hw, hm⟩ := (h.thread p).of_not_after hcall fun _ => id
    cases w with
    | none => exact absurd hw id
    | some w =>
      obtain ⟨hupd, hafter, -⟩ := hw
      -- the monitor is set, so the value that was loaded is still there
      obtain rfl : w = s.cell := hm hmark w rfl
      have hstep := AtomStep.effect (a := a) p c v ho (hcell.symm ▸ hupd)
      rw [hk, hcell] at hstep
      exact ⟨_, h.store (.after (t := { s.thread p with call := some (c, k false), mark := false })
        c _ s.cell rfl hafter), .inr hstep⟩
  | fail p c v k hcall =>
    obtain ⟨hk, ho, w, hw, -⟩ := (h.thread p).of_not_after hcall fun _ => id
    cases w with
    | none => exact absurd hw id
    | some w =>
      refine ⟨a, h.stay ?_, .inl rfl⟩
      rw [hk, ho]
      exact .before (t := { s.thread p with call := some (c, k true), mark := false }) c _ none
        rfl hw.2.2
        fun _ v hv => absurd hv (Option.not_mem_none v)
  | str p c v k hcall =>
    obtain ⟨hk, ho, w, hw, -⟩ := (h.thread p).of_not_after hcall fun _ => id
    have hw : ∀ u, S.upd c u = some v ∧ After (S.res c u) k := by
      cases w <;> exact hw
    obtain ⟨hupd, hafter⟩ := hw s.cell
    have hstep := AtomStep.effect (a := a) p c v ho (hcell.symm ▸ hupd)
    rw [hk, hcell] at hstep
    exact ⟨_, h.store (.after (t := { s.thread p with call := some (c, k) }) c _ s.cell rfl hafter),
      .inr hstep⟩

/-! ## Runs -/

omit [DecidableEq P] in
theorem start_sim (S : Spec V A C K) (v : V) (k : K) :
    (Machine.start v k : Machine P V A C K).Sim S ⟨v, fun _ => k, fun _ => none⟩ :=
  ⟨rfl, fun _ => .out rfl⟩

/-- Every run is one with atomic effects. -/
theorem run_simulates (hS : S.Atomic) (h : s.Sim S a)
    (run : Relation.ReflTransGen (Step S.toService) s s') :
    ∃ a', s'.Sim S a' ∧ Relation.ReflTransGen (AtomStep S) a a' := by
  induction run with
  | refl => exact ⟨a, h, .refl⟩
  | tail _ hstep ih =>
    obtain ⟨a₁, h₁, hrun⟩ := ih
    obtain ⟨a₂, h₂, rfl | hatom⟩ := hstep.simulates hS h₁
    · exact ⟨a₂, h₂, hrun⟩
    · exact ⟨a₂, h₂, hrun.tail hatom⟩

/-- An invariant of the atomic effects holds in every run. -/
theorem atom_inv (hS : S.Atomic) {k : K} (I : Atom P V C K → Prop)
    (start : I ⟨v, fun _ => k, fun _ => none⟩) (step : ∀ a a', I a → AtomStep S a a' → I a')
    (run : Relation.ReflTransGen (Step S.toService) (Machine.start v k) s) :
    ∃ a, s.Sim S a ∧ I a := by
  obtain ⟨a, h, hrun⟩ := run_simulates hS (start_sim S v k) run
  refine ⟨a, h, ?_⟩
  clear h
  induction hrun with
  | refl => exact start
  | tail _ hstep ih => exact step _ _ ih hstep

/-! ## One processor alone -/

/-- The next step of `p` in its routine; the exclusive store fails only without the monitor. -/
def advance (S : Service V A C K) (p : P) (s : Machine P V A C K) (c : C) : Prog V A →
    Machine P V A C K
  | .ret a => s.set p { s.thread p with client := S.ret (s.thread p).client c a, call := none }
  | .retry => s.set p { s.thread p with call := some (c, S.body c) }
  | .ldrex k => s.set p { s.thread p with call := some (c, k s.cell), mark := true }
  | .strex v k =>
    if (s.thread p).mark then
      s.store p v { s.thread p with call := some (c, k false), mark := false }
    else s.set p { s.thread p with call := some (c, k true), mark := false }
  | .str v k => s.store p v { s.thread p with call := some (c, k) }

def solo (S : Service V A C K) (p : P) (s : Machine P V A C K) : Machine P V A C K :=
  match (s.thread p).call with
  | none => s
  | some (c, rest) => advance S p s c rest

theorem solo_eq {S : Service V A C K} {rest : Prog V A}
    (hcall : (s.thread p).call = some (c, rest)) :
    solo S p s = advance S p s c rest := by
  unfold solo
  rw [hcall]

theorem solo_step (S : Service V A C K) (hc : (s.thread p).call ≠ none) :
    Step S s (solo S p s) := by
  obtain ⟨⟨c, rest⟩, hcall⟩ := Option.ne_none_iff_exists'.mp hc
  rw [solo_eq hcall]
  cases rest with
  | ret a => exact .ret p c a hcall
  | retry => exact .retry p c hcall
  | ldrex k => exact .ldrex p c k hcall
  | strex v k =>
    unfold advance
    split_ifs with hmark
    · exact .strex p c v k hcall hmark
    · exact .fail p c v k hcall
  | str v k => exact .str p c v k hcall

theorem run_solo {S : Service V A C K} {s₀ : Machine P V A C K}
    (run : Relation.ReflTransGen (Step S) s₀ s) (n : ℕ) :
    Relation.ReflTransGen (Step S) s₀ ((solo S p)^[n] s) := by
  induction n with
  | zero => exact run
  | succ n ih =>
    rw [Function.iterate_succ_apply']
    by_cases hc : (((solo S p)^[n] s).thread p).call = none
    · have hstay : solo S p ((solo S p)^[n] s) = (solo S p)^[n] s := by
        rw [solo, hc]
      rwa [hstay]
    · exact ih.tail (solo_step S hc)

/-- A routine that finds its update possible goes straight on to it. -/
def Spec.Prompt (S : Spec V A C K) : Prop := ∀ c v v', S.upd c v = some v' →
  (∃ k, S.body c = .str v' k) ∨
    ∃ k, S.body c = .ldrex k ∧ ((∃ k', k v = .strex v' k') ∨ v' = v ∧ After (S.res c v) (k v))

/-- The call of `p` has returned, with its effect. -/
def Returned (S : Spec V A C K) (p : P) (k : K) (c : C) (s : Machine P V A C K) : Prop :=
  (s.thread p).call = none ∧ ∃ v, (s.thread p).client = S.ret k c (S.res c v)

/-- Alone, `p` comes to such a state. -/
def Leads (S : Service V A C K) (p : P) (s : Machine P V A C K) (Q : Machine P V A C K → Prop) :
    Prop :=
  ∃ n, Q ((solo S p)^[n] s)

section Alone

variable {Q : Machine P V A C K → Prop} {rest : Prog V A}

theorem Leads.now (h : Q s) : Leads S.toService p s Q := ⟨0, h⟩

theorem Leads.next (hs : solo S.toService p s = s') (h : Leads S.toService p s' Q) :
    Leads S.toService p s Q := by
  obtain ⟨n, h⟩ := h
  refine ⟨n + 1, ?_⟩
  rwa [Function.iterate_succ_apply, hs]

theorem leads_after (hcall : (s.thread p).call = some (c, rest)) (hk : (s.thread p).client = k)
    (ha : After (S.res c v) rest) : Leads S.toService p s (Returned S p k c) := by
  rw [ha.eq] at hcall
  refine .next (solo_eq hcall) (.now ⟨?_, v, ?_⟩)
  · rw [advance, Machine.set_self]
  · rw [advance, Machine.set_self, hk]

theorem leads_set (hcall : t.call = some (c, rest)) (hk : t.client = k)
    (ha : After (S.res c v) rest) :
    Leads S.toService p (s.set p t) (Returned S p k c) := by
  have hself := Machine.set_self s p t
  exact leads_after (by rw [hself, hcall]) (by rw [hself, hk]) ha

theorem leads_store (hcall : t.call = some (c, rest)) (hk : t.client = k)
    (ha : After (S.res c v) rest) :
    Leads S.toService p (s.store p v' t) (Returned S p k c) := by
  have hself := Machine.store_self s p v' t
  exact leads_after (by rw [hself, hcall]) (by rw [hself, hk]) ha

/-- From the start of the routine, where the update is possible. -/
theorem leads_body (hS : S.Atomic) (hprompt : S.Prompt) (hupd : S.upd c s.cell = some v)
    (hcall : (s.thread p).call = some (c, S.body c)) (hk : (s.thread p).client = k) :
    Leads S.toService p s (Returned S p k c) := by
  have hbody := hS c
  obtain ⟨rest, hstr⟩ | ⟨load, hload, hnext⟩ := hprompt c _ v hupd
  · rw [hstr] at hcall hbody
    exact .next (solo_eq hcall) (leads_store rfl hk (hbody s.cell).2)
  · rw [hload] at hcall hbody
    refine .next (solo_eq hcall) ?_
    let t : Thread V A C K := { s.thread p with call := some (c, load s.cell), mark := true }
    change Leads S.toService p (s.set p t) _
    obtain ⟨rest, hstrex⟩ | ⟨-, hafter⟩ := hnext
    · have hbefore := hbody s.cell
      rw [hstrex] at hbefore
      obtain ⟨-, hafter, -⟩ | ⟨-, hfalse⟩ := hbefore
      · have hself := Machine.set_self s p t
        have hcall' : ((s.set p t).thread p).call = some (c, .strex v rest) := by
          rw [hself]
          exact congrArg (fun r => some (c, r)) hstrex
        refine .next (solo_eq hcall') ?_
        rw [advance, if_pos (by rw [hself]), hself]
        exact leads_store rfl hk hafter
      · exact absurd hfalse id
    · exact leads_set rfl hk hafter

/-- **Progress.** Wherever the routine is, it returns with its effect when the other processors
leave the word alone, if the update is possible where it is still to be made, and the routine does
not give up. -/
theorem leads_returned (hS : S.Atomic) (hprompt : S.Prompt) (hgives : ∀ a, ¬S.gives c a)
    (hupd : o = some c → ∃ v, S.upd c s.cell = some v) (hcall : (s.thread p).call = some (c, rest))
    (h : (s.thread p).Sim S s.cell k o) :
    Leads S.toService p s (Returned S p (s.thread p).client c) := by
  generalize hk' : (s.thread p).client = k'
  cases h with
  | out hc => exact absurd (hc.symm.trans hcall).symm (Option.some_ne_none _)
  | after c' rest' w hc ha =>
    obtain ⟨rfl, rfl⟩ := Prod.mk.inj (Option.some.inj (hcall.symm.trans hc))
    exact leads_after hcall hk' ha
  | before c' rest' w hc hw hm =>
    obtain ⟨rfl, rfl⟩ := Prod.mk.inj (Option.some.inj (hcall.symm.trans hc))
    clear hc
    obtain ⟨v, hpossible⟩ := hupd rfl
    clear hupd
    induction rest generalizing s w with
    | ret a =>
      refine absurd ?_ (hgives a)
      cases w <;> exact hw
    | retry =>
      refine .next (solo_eq hcall) (leads_body hS hprompt hpossible ?_ ?_)
      · rw [advance, Machine.set_self]
      · rwa [advance, Machine.set_self]
    | ldrex load ih =>
      have hnext : Before S c (some s.cell) (load s.cell) ∨
          S.upd c s.cell = some s.cell ∧ After (S.res c s.cell) (load s.cell) := by
        cases w <;> exact hw s.cell
      refine .next (solo_eq hcall) ?_
      rw [advance]
      rcases hnext with hbefore | ⟨-, hafter⟩
      · refine ih s.cell ?_ ?_ (some s.cell) (fun _ u hu => (Option.some.inj hu).symm)
          hbefore hpossible
        · rw [Machine.set_self]
        · rwa [Machine.set_self]
      · exact leads_set rfl hk' hafter
    | strex u load ih =>
      cases w with
      | none => exact absurd hw id
      | some w =>
        obtain ⟨-, hafter, hfail⟩ := hw
        refine .next (solo_eq hcall) ?_
        rw [advance]
        split_ifs with hmark
        · exact leads_store rfl hk' hafter
        · refine ih true ?_ ?_ none (fun _ u hu => absurd hu (Option.not_mem_none u))
            hfail hpossible
          · rw [Machine.set_self]
          · rwa [Machine.set_self]
    | str u rest ih =>
      have hw : ∀ u', S.upd c u' = some u ∧ After (S.res c u') rest := by
        cases w <;> exact hw
      exact .next (solo_eq hcall) (leads_store rfl hk' (hw s.cell).2)

end Alone

/-! ## Callers that note what they get -/

section Noting

/-- The rules by which one call after the other takes effect. -/
structure Rules (V A C : Type*) where
  next : C → V → V
  res : C → V → A

/-- Every call takes effect, and the callers note the calls with their return values. -/
def noting (body : C → Prog V A) (R : Rules V A C) : Spec V A C (List (C × A)) where
  body := body
  call k _ := some k
  ret k c a := k ++ [(c, a)]
  own _ _ := False
  upd c v := some (R.next c v)
  res := R.res
  gives _ _ := False

/-- The word after the calls of a history. -/
def Rules.exec (R : Rules V A C) (v : V) (h : List (P × C)) : V :=
  h.foldl (fun v e => R.next e.2 v) v

/-- What `p` notes of a history. -/
def Rules.notes (R : Rules V A C) (p : P) : V → List (P × C) → List (C × A)
  | _, [] => []
  | v, (q, c) :: h =>
    if q = p then (c, R.res c v) :: R.notes p (R.next c v) h else R.notes p (R.next c v) h

variable {R : Rules V A C} {body : C → Prog V A} {h e : List (P × C)} {q : P}

omit [DecidableEq P] in
theorem Rules.exec_append (v : V) (h e : List (P × C)) :
    R.exec v (h ++ e) = R.exec (R.exec v h) e := List.foldl_append

theorem Rules.notes_append (p : P) (v : V) (h e : List (P × C)) :
    R.notes p v (h ++ e) = R.notes p v h ++ R.notes p (R.exec v h) e := by
  induction h generalizing v with
  | nil => rfl
  | cons x h ih =>
    obtain ⟨q, c⟩ := x
    rw [List.cons_append, Rules.notes, Rules.notes, ih]
    by_cases hq : q = p
    · rw [if_pos hq, if_pos hq]
      rfl
    · rw [if_neg hq, if_neg hq]
      rfl

/-- The history explains what the callers have noted, and noted nothing of their calls that have no
effect yet. -/
structure Atom.Explained (R : Rules V A C) (v : V) (a : Atom P V C (List (C × A)))
    (h : List (P × C)) : Prop where
  cell : a.cell = R.exec v h
  client : ∀ p, a.client p = R.notes p v h

theorem Atom.Explained.step {a a' : Atom P V C (List (C × A))} (ha : a.Explained R v h)
    (step : AtomStep (noting body R) a a') : ∃ e, a'.Explained R v (h ++ e) := by
  cases step with
  | own p k _ hown => exact absurd hown id
  | call p c k _ hcall =>
    obtain rfl : a.client p = k := Option.some.inj hcall
    refine ⟨[], ?_⟩
    rw [List.append_nil, Function.update_eq_self]
    exact ⟨ha.cell, ha.client⟩
  | effect p c v' _ hupd =>
    obtain rfl : R.next c a.cell = v' := Option.some.inj hupd
    refine ⟨[(p, c)], ⟨?_, fun q => ?_⟩⟩
    · rw [Rules.exec_append, ← ha.cell]
      rfl
    · rw [Rules.notes_append, ← ha.cell, ← ha.client, Rules.notes, Rules.notes]
      by_cases hq : q = p
      · subst hq
        rw [if_pos rfl]
        exact Function.update_self ..
      · rw [if_neg (Ne.symm hq), List.append_nil]
        exact Function.update_of_ne hq ..
  | giveUp p c x _ hgives => exact absurd hgives id

theorem Atom.Explained.run {a a' : Atom P V C (List (C × A))} (ha : a.Explained R v h)
    (run : Relation.ReflTransGen (AtomStep (noting body R)) a a') :
    ∃ e, a'.Explained R v (h ++ e) := by
  induction run with
  | refl => exact ⟨[], by rwa [List.append_nil]⟩
  | tail _ hstep ih =>
    obtain ⟨e, he⟩ := ih
    obtain ⟨e', he'⟩ := he.step hstep
    exact ⟨e ++ e', by rwa [← List.append_assoc]⟩

/-- The history explains the word and the notes of every processor; a call about to return counts as
noted. -/
structure Linear (R : Rules V A C) (v : V) (s : Machine P V A C (List (C × A))) (h : List (P × C)) :
    Prop where
  cell : s.cell = R.exec v h
  notes : ∀ p, R.notes p v h = (s.thread p).client ∨
    ∃ c a, (s.thread p).call = some (c, .ret a) ∧ R.notes p v h = (s.thread p).client ++ [(c, a)]

theorem Machine.Sim.linear {s : Machine P V A C (List (C × A))} {a : Atom P V C (List (C × A))}
    (hs : s.Sim (noting body R) a) (ha : a.Explained R v h) : Linear R v s h := by
  refine ⟨hs.cell.symm.trans ha.cell, fun p => ?_⟩
  rw [← ha.client p]
  obtain hk | ⟨c, w, hcall, hk⟩ := (hs.thread p).held
  · exact .inl hk
  · exact .inr ⟨c, _, hcall, hk⟩

/-- **Linearization.** A history explains what was noted so far, and in every later state it is
continued. -/
theorem noting_linear (hS : (noting body R).Atomic) {s : Machine P V A C (List (C × A))}
    (run : Relation.ReflTransGen (Step (noting body R).toService) (Machine.start v []) s) :
    ∃ h, Linear R v s h ∧
      ∀ s', Relation.ReflTransGen (Step (noting body R).toService) s s' →
        ∃ e, Linear R v s' (h ++ e) := by
  have hstart : (⟨v, fun _ => [], fun _ => none⟩ : Atom P V C (List (C × A))).Explained R v [] :=
    ⟨rfl, fun _ => rfl⟩
  obtain ⟨a, hs, hrun⟩ := run_simulates hS (start_sim _ v []) run
  obtain ⟨h, ha⟩ := hstart.run hrun
  refine ⟨h, hs.linear ha, fun s' run' => ?_⟩
  obtain ⟨a', hs', hrun'⟩ := run_simulates hS hs run'
  obtain ⟨e, ha'⟩ := ha.run hrun'
  exact ⟨e, hs'.linear ha'⟩

end Noting

end Exclusive
