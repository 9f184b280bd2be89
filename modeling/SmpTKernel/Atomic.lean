import SmpTKernel.Basic
import SmpTKernel.Lib.Exclusive

/-!
# Atomic memory operations

The functions of `atomic.S` work on a word that all processors share, with exclusive loads and
stores.
-/

namespace SmpTKernel

open Exclusive.Prog

abbrev AtomicProg : Type := Exclusive.Prog (BitVec 32) (BitVec 32)

/-- The value after the increment is returned. -/
def atomic_inc : AtomicProg :=
  ldrex fun r1 => strex (r1 + 1) fun r2 => if r2 then retry else ret (r1 + 1)

/-- The value after the decrement is returned. -/
def atomic_dec : AtomicProg :=
  ldrex fun r1 => strex (r1 - 1) fun r2 => if r2 then retry else ret (r1 - 1)

def atomic_add (val : BitVec 32) : AtomicProg :=
  ldrex fun r2 => strex (r2 + val) fun r3 => if r3 then retry else ret (r2 + val)

def atomic_sub (val : BitVec 32) : AtomicProg :=
  ldrex fun r2 => strex (r2 - val) fun r3 => if r3 then retry else ret (r2 - val)

/-- The value before it substitutes it is returned. -/
def atomic_xchg (val : BitVec 32) : AtomicProg :=
  ldrex fun r2 => strex val fun r3 => if r3 then retry else ret r2

/-- Without the store if `*addr` and `cmp` are not the same. -/
def atomic_cmpxchg (val cmp : BitVec 32) : AtomicProg :=
  ldrex fun r3 => if r3 ≠ cmp then ret r3 else strex val fun ip => if ip then retry else ret r3

def atomic_bitset (setptn : BitVec 32) : AtomicProg :=
  ldrex fun r2 => strex (r2 ||| setptn) fun ip => if ip then retry else ret r2

/-- The logical conjunction: `clrptn` has the bits that stay. -/
def atomic_bitclr (clrptn : BitVec 32) : AtomicProg :=
  ldrex fun r2 => strex (r2 &&& clrptn) fun ip => if ip then retry else ret r2

inductive AtomicCall
  | inc
  | dec
  | add (val : BitVec 32)
  | sub (val : BitVec 32)
  | xchg (val : BitVec 32)
  | cmpxchg (val cmp : BitVec 32)
  | bitset (setptn : BitVec 32)
  | bitclr (clrptn : BitVec 32)
  deriving DecidableEq, Repr

def AtomicCall.body : AtomicCall → AtomicProg
  | .inc => atomic_inc
  | .dec => atomic_dec
  | .add val => atomic_add val
  | .sub val => atomic_sub val
  | .xchg val => atomic_xchg val
  | .cmpxchg val cmp => atomic_cmpxchg val cmp
  | .bitset setptn => atomic_bitset setptn
  | .bitclr clrptn => atomic_bitclr clrptn

/-- What the comments of the functions say: the new value of the word. -/
def AtomicCall.next : AtomicCall → BitVec 32 → BitVec 32
  | .inc, v => v + 1
  | .dec, v => v - 1
  | .add val, v => v + val
  | .sub val, v => v - val
  | .xchg val, _ => val
  | .cmpxchg val cmp, v => if v = cmp then val else v
  | .bitset setptn, v => v ||| setptn
  | .bitclr clrptn, v => v &&& clrptn

/-- The value that is returned: the new one of arithmetic, and otherwise the one before. -/
def AtomicCall.result : AtomicCall → BitVec 32 → BitVec 32
  | .inc, v => v + 1
  | .dec, v => v - 1
  | .add val, v => v + val
  | .sub val, v => v - val
  | _, v => v

/-- The operations, one after the other. -/
def atomicRules : Exclusive.Rules (BitVec 32) (BitVec 32) AtomicCall :=
  ⟨AtomicCall.next, AtomicCall.result⟩

/-- The functions and their callers, who note what they get. -/
def atomicWord : Exclusive.Spec (BitVec 32) (BitVec 32) AtomicCall
    (List (AtomicCall × BitVec 32)) :=
  Exclusive.noting AtomicCall.body atomicRules

theorem atomicWord_atomic : atomicWord.Atomic := by
  intro c
  cases c with
  | cmpxchg val cmp =>
    intro v
    beta_reduce
    by_cases h : v = cmp
    · rw [if_neg (not_not.mpr h)]
      exact .inl ⟨congrArg some (if_pos h), rfl, trivial⟩
    · rw [if_pos h]
      exact .inr ⟨congrArg some (if_neg h), rfl⟩
  | inc | dec | add | sub | xchg | bitset | bitclr => exact fun v => .inl ⟨rfl, rfl, trivial⟩

theorem atomicWord_prompt : atomicWord.Prompt := by
  intro c v v' h
  obtain rfl : AtomicCall.next c v = v' := Option.some.inj h
  cases c with
  | cmpxchg val cmp =>
    refine .inr ⟨_, rfl, ?_⟩
    by_cases h : v = cmp
    · rw [if_neg (not_not.mpr h), AtomicCall.next, if_pos h]
      exact .inl ⟨_, rfl⟩
    · rw [if_pos h, AtomicCall.next, if_neg h]
      exact .inr ⟨rfl, rfl⟩
  | inc | dec | add | sub | xchg | bitset | bitclr => exact .inr ⟨_, rfl, .inl ⟨_, rfl⟩⟩

/-- **The operations are atomic.** In every interleaving of the accesses, with exclusive stores
failing as they like, there is an order of the calls in which one after the other gives the word and
every value that was returned. In every later state that order has only grown at its end, so a call
that has returned stands before all that are made later. A call returns if the other processors
leave the word alone for a while. -/
theorem atomicWord_linear {P : Type} [DecidableEq P] {v : BitVec 32}
    {s : Exclusive.Machine P (BitVec 32) (BitVec 32) AtomicCall (List (AtomicCall × BitVec 32))}
    (run : Relation.ReflTransGen (Exclusive.Step atomicWord.toService)
      (Exclusive.Machine.start v []) s) :
    (∃ h, Exclusive.Linear atomicRules v s h ∧
      ∀ s', Relation.ReflTransGen (Exclusive.Step atomicWord.toService) s s' →
        ∃ e, Exclusive.Linear atomicRules v s' (h ++ e)) ∧
      ∀ p c rest, (s.thread p).call = some (c, rest) → Exclusive.Leads atomicWord.toService p s
        (Exclusive.Returned atomicWord p (s.thread p).client c) := by
  refine ⟨Exclusive.noting_linear atomicWord_atomic run, fun p c rest hcall => ?_⟩
  obtain ⟨a, hsim, -⟩ :=
    Exclusive.run_simulates atomicWord_atomic (Exclusive.start_sim atomicWord v []) run
  exact Exclusive.leads_returned atomicWord_atomic atomicWord_prompt (fun _ => id) (fun _ =>
    ⟨_, rfl⟩) hcall
    (hsim.thread p)

/-- The first processor has incremented the word, and the second one has just called. -/
def atomicOne : Exclusive.Machine (Fin 2) (BitVec 32) (BitVec 32) AtomicCall
    (List (AtomicCall × BitVec 32)) :=
  let s := Exclusive.Machine.start 0 []
  let s := s.set 0 { s.thread 0 with client := [], call := some (.inc, atomic_inc) }
  let s := (Exclusive.solo atomicWord.toService 0)^[3] s
  s.set 1 { s.thread 1 with client := [], call := some (.inc, atomic_inc) }

/-- The second one is about to return. -/
def atomicTwo : Exclusive.Machine (Fin 2) (BitVec 32) (BitVec 32) AtomicCall
    (List (AtomicCall × BitVec 32)) :=
  (Exclusive.solo atomicWord.toService 1)^[2] atomicOne

theorem atomicOne_run :
    Relation.ReflTransGen (Exclusive.Step atomicWord.toService) (Exclusive.Machine.start 0 [])
      atomicOne :=
  (Exclusive.run_solo (Relation.ReflTransGen.refl.tail
    (Exclusive.Step.call (S := atomicWord.toService) 0 AtomicCall.inc [] rfl rfl)) 3).tail
    (Exclusive.Step.call (S := atomicWord.toService) 1 AtomicCall.inc [] rfl rfl)

theorem atomicWord_linear_two : atomicOne.cell = 1 ∧ atomicTwo.cell = 2 ∧
    (∃ h e, Exclusive.Linear atomicRules 0 atomicOne h ∧
      Exclusive.Linear atomicRules 0 atomicTwo (h ++ e)) ∧
    Exclusive.Leads atomicWord.toService 1 atomicOne (Exclusive.Returned atomicWord 1 [] .inc) := by
  have hlinear := atomicWord_linear atomicOne_run
  obtain ⟨h, hh, hlater⟩ := hlinear.1
  obtain ⟨e, he⟩ := hlater atomicTwo (Exclusive.run_solo .refl 2)
  exact ⟨rfl, rfl, ⟨h, e, hh, he⟩, hlinear.2 1 .inc _ rfl⟩

end SmpTKernel
