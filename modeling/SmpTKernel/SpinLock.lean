import Mathlib.Algebra.BigOperators.Group.Finset.Basic
import Mathlib.Algebra.Order.BigOperators.Group.Finset
import SmpTKernel.Basic
import SmpTKernel.Lib.Exclusive

/-!
# Spin locks

The read write lock and the spin lock are written with exclusive loads and stores
(`_readwritelock.S`, `_spinlock.S`); the critical sections of the kernel count how often the
processor has entered (`countlock.c`). A step of a processor is one access to the lock word with the
instructions on registers that follow it, and the steps of the processors are interleaved as they
come.
-/

namespace SmpTKernel

open Exclusive.Prog

/-! ## The read write lock -/

/-- The routines on the word of a lock. -/
abbrev LockProg : Type := Exclusive.Prog (BitVec 32) ER

/-- Acquire read lock: one less while that is negative (`strexmi`). -/
def readLock : LockProg :=
  ldrex fun r1 =>
    if (r1 - 1).msb then strex (r1 - 1) fun r2 => if r2 then retry else ret E_OK else retry

/-- Try to acquire read lock. -/
def readTryLock : LockProg :=
  ldrex fun r1 =>
    if (r1 - 1).msb then strex (r1 - 1) fun r2 => if r2 then ret E_BUSY else ret E_OK
    else ret E_BUSY

/-- Release read lock. -/
def readUnlock : LockProg := ldrex fun r1 => strex (r1 + 1) fun r2 => if r2 then retry else ret E_OK

/-- Acquire write lock. -/
def writeLock : LockProg :=
  ldrex fun r2 => if r2 = 0 then strex 1 fun r2 => if r2 then retry else ret E_OK else retry

/-- Try to acquire write lock. -/
def writeTryLock : LockProg :=
  ldrex fun r1 =>
    if r1 = 0 then strex 1 fun r3 => if r3 then ret E_BUSY else ret E_OK else ret E_BUSY

/-- Release write lock. -/
def writeUnlock : LockProg := str 0 (ret E_OK)

inductive RwCall
  | readLock
  | readTryLock
  | readUnlock
  | writeLock
  | writeTryLock
  | writeUnlock
  deriving DecidableEq, Repr

/-- What a processor has of the lock. -/
structure RwClient where
  reads : ℕ
  writes : Bool
  deriving DecidableEq, Repr

/-- Nothing. -/
def RwClient.none : RwClient := ⟨0, false⟩

/-- The lock and its callers; a processor releases only what it has. -/
def rwLock : Exclusive.Spec (BitVec 32) ER RwCall RwClient where
  body
    | .readLock => readLock
    | .readTryLock => readTryLock
    | .readUnlock => readUnlock
    | .writeLock => writeLock
    | .writeTryLock => writeTryLock
    | .writeUnlock => writeUnlock
  call k
    | .readUnlock => if 0 < k.reads then some k else Option.none
    | .writeUnlock => if k.writes then some k else Option.none
    | _ => some k
  ret k c a := match c with
    | .readLock | .readTryLock => if a = E_OK then { k with reads := k.reads + 1 } else k
    | .readUnlock => { k with reads := k.reads - 1 }
    | .writeLock | .writeTryLock => if a = E_OK then { k with writes := true } else k
    | .writeUnlock => { k with writes := false }
  own _ _ := False
  upd
    | .readLock, v | .readTryLock, v => if (v - 1).msb then some (v - 1) else Option.none
    | .readUnlock, v => some (v + 1)
    | .writeLock, v | .writeTryLock, v => if v = 0 then some 1 else Option.none
    | .writeUnlock, _ => some 0
  res _ _ := E_OK
  gives c a := (c = .readTryLock ∨ c = .writeTryLock) ∧ a = E_BUSY

theorem rwLock_atomic : rwLock.Atomic := by
  intro c
  cases c with
  | readLock =>
    intro v
    beta_reduce
    by_cases h : (v - 1).msb
    · rw [if_pos h]
      exact .inl ⟨if_pos h, rfl, trivial⟩
    · rw [if_neg h]
      exact .inl trivial
  | readTryLock =>
    intro v
    beta_reduce
    by_cases h : (v - 1).msb
    · rw [if_pos h]
      exact .inl ⟨if_pos h, rfl, .inl rfl, rfl⟩
    · rw [if_neg h]
      exact .inl ⟨.inl rfl, rfl⟩
  | readUnlock => exact fun v => .inl ⟨rfl, rfl, trivial⟩
  | writeLock =>
    intro v
    beta_reduce
    by_cases h : v = 0
    · rw [if_pos h]
      exact .inl ⟨if_pos h, rfl, trivial⟩
    · rw [if_neg h]
      exact .inl trivial
  | writeTryLock =>
    intro v
    beta_reduce
    by_cases h : v = 0
    · rw [if_pos h]
      exact .inl ⟨if_pos h, rfl, .inr rfl, rfl⟩
    · rw [if_neg h]
      exact .inl ⟨.inr rfl, rfl⟩
  | writeUnlock => exact fun _ => ⟨rfl, rfl⟩

theorem rwLock_prompt : rwLock.Prompt := by
  intro c v v' h
  cases c with
  | readLock | readTryLock =>
    obtain ⟨hmsb, ⟨rfl⟩⟩ := Option.ite_none_right_eq_some.mp h
    exact .inr ⟨_, rfl, .inl ⟨_, if_pos hmsb⟩⟩
  | readUnlock =>
    obtain rfl := Option.some.inj h
    exact .inr ⟨_, rfl, .inl ⟨_, rfl⟩⟩
  | writeLock | writeTryLock =>
    obtain ⟨hzero, ⟨rfl⟩⟩ := Option.ite_none_right_eq_some.mp h
    exact .inr ⟨_, rfl, .inl ⟨_, if_pos hzero⟩⟩
  | writeUnlock =>
    obtain rfl := Option.some.inj h
    exact .inl ⟨_, rfl⟩

/-! ## Readers and writers -/

namespace RwClient

/-- What the processor adds to the word. -/
def weight (k : RwClient) : ℤ := (if k.writes then 1 else 0) - k.reads

@[simp] theorem weight_none : RwClient.none.weight = 0 := rfl

theorem weight_nonpos {k : RwClient} (h : k.writes = false) : k.weight ≤ 0 := by
  simp [weight, h]

theorem eq_none_of_weight {k : RwClient} (h : k.writes = false) (hw : k.weight = 0) : k = none := by
  obtain ⟨reads, writes⟩ := k
  obtain rfl : writes = false := h
  simp [weight] at hw
  rw [hw]
  rfl

end RwClient

/-- The word counts the readers below zero, or says that one processor writes, and nobody else has
anything. -/
structure RwInv {P : Type} [Fintype P] (a : Exclusive.Atom P (BitVec 32) RwCall RwClient) :
    Prop where
  word : a.cell.toInt = ∑ p, (a.client p).weight
  alone : ∀ p, (a.client p).writes = true →
    a.client p = ⟨0, true⟩ ∧ ∀ q ≠ p, a.client q = RwClient.none
  reads : ∀ p, a.pending p = some .readUnlock → 0 < (a.client p).reads
  writes : ∀ p, a.pending p = some .writeUnlock → (a.client p).writes = true

theorem toInt_sub_one {v : BitVec 32} (h : (v - 1).msb = true) :
    v.toInt ≤ 0 ∧ (v - 1).toInt = v.toInt - 1 := by
  rw [BitVec.msb_eq_decide, decide_eq_true_eq, BitVec.toNat_sub] at h
  rw [BitVec.toInt_eq_toNat_cond, BitVec.toInt_eq_toNat_cond, BitVec.toNat_sub]
  have := v.isLt
  simp at h ⊢
  split_ifs <;> omega

theorem toInt_add_one {v : BitVec 32} (h : v.toInt < 0) : (v + 1).toInt = v.toInt + 1 := by
  rw [BitVec.toInt_eq_toNat_cond] at h ⊢
  rw [BitVec.toInt_eq_toNat_cond, BitVec.toNat_add]
  have := v.isLt
  simp at h ⊢
  split_ifs at h ⊢ <;> omega

section Readers

variable {P : Type} [Fintype P] {a a' : Exclusive.Atom P (BitVec 32) RwCall RwClient} {p : P}

namespace RwInv

theorem word_of_writes (h : RwInv a) (hp : (a.client p).writes = true) : a.cell.toInt = 1 := by
  obtain ⟨hself, hothers⟩ := h.alone p hp
  rw [h.word, Finset.sum_eq_single p (fun q _ hq => by rw [hothers q hq]; rfl) fun hf =>
    absurd (Finset.mem_univ p) hf, hself]
  rfl

theorem no_writer (h : RwInv a) (hw : a.cell.toInt ≤ 0) (q : P) : (a.client q).writes = false := by
  cases hq : (a.client q).writes with
  | false => rfl
  | true =>
    have := h.word_of_writes hq
    omega

theorem free (h : RwInv a) (hw : a.cell.toInt = 0) (q : P) : a.client q = RwClient.none := by
  have hno := h.no_writer hw.le
  have hsum : ∑ q, (a.client q).weight = 0 := h.word.symm.trans hw
  have hall := (Finset.sum_eq_zero_iff_of_nonpos fun q _ => RwClient.weight_nonpos (hno q)).mp hsum
  exact RwClient.eq_none_of_weight (hno q) (hall q (Finset.mem_univ q))

variable [DecidableEq P]

/-- The call of `p` that is in progress changes, and nothing else. -/
theorem pend (h : RwInv a) {o : Option RwCall} (hr : o = some .readUnlock → 0 < (a.client p).reads)
    (hw : o = some .writeUnlock → (a.client p).writes = true) :
    RwInv ⟨a.cell, a.client, Function.update a.pending p o⟩ := by
  refine ⟨h.word, h.alone, fun q hq => ?_, fun q hq => ?_⟩
  · change Function.update a.pending p o q = _ at hq
    by_cases hqp : q = p
    · rw [hqp, Function.update_self] at hq
      exact hqp ▸ hr hq
    · rw [Function.update_of_ne hqp] at hq
      exact h.reads q hq
  · change Function.update a.pending p o q = _ at hq
    by_cases hqp : q = p
    · rw [hqp, Function.update_self] at hq
      exact hqp ▸ hw hq
    · rw [Function.update_of_ne hqp] at hq
      exact h.writes q hq

theorem sum_weight_update (g : P → RwClient) (p : P) (k : RwClient) :
    ∑ q, (Function.update g p k q).weight = ∑ q, (g q).weight + (k.weight - (g p).weight) := by
  have hrest : ∑ q ∈ Finset.univ.erase p, (Function.update g p k q).weight = ∑ q ∈
      Finset.univ.erase p, (g q).weight :=
    Finset.sum_congr rfl fun q hq => by rw [Function.update_of_ne (Finset.ne_of_mem_erase hq)]
  rw [← Finset.add_sum_erase _ _ (Finset.mem_univ p), ← Finset.add_sum_erase _ (fun q =>
    (g q).weight) (Finset.mem_univ p), hrest, Function.update_self]
  omega

theorem effect (h : RwInv a) {v : BitVec 32} {k : RwClient}
    (hword : v.toInt = a.cell.toInt + (k.weight - (a.client p).weight))
    (halone : ∀ q, (Function.update a.client p k q).writes = true →
      Function.update a.client p k q = ⟨0, true⟩ ∧
      ∀ r ≠ q, Function.update a.client p k r = RwClient.none) :
    RwInv ⟨v, Function.update a.client p k, Function.update a.pending p none⟩ := by
  have hne {q : P} {c : RwCall} (hq : Function.update a.pending p none q = some c) :
      q ≠ p ∧ a.pending q = some c := by
    have hqp : q ≠ p := by
      rintro rfl
      rw [Function.update_self] at hq
      cases hq
    exact ⟨hqp, by rwa [Function.update_of_ne hqp] at hq⟩
  refine ⟨?_, halone, fun q hq => ?_, fun q hq => ?_⟩
  · rw [sum_weight_update, ← h.word]
    exact hword
  · obtain ⟨hqp, hq⟩ := hne hq
    change 0 < (Function.update a.client p k q).reads
    rw [Function.update_of_ne hqp]
    exact h.reads q hq
  · obtain ⟨hqp, hq⟩ := hne hq
    change (Function.update a.client p k q).writes = true
    rw [Function.update_of_ne hqp]
    exact h.writes q hq

theorem effect_reads (h : RwInv a) {v : BitVec 32} {n : ℕ} (hw : a.cell.toInt ≤ 0)
    (hv : v.toInt = a.cell.toInt - n + (a.client p).reads) :
    RwInv ⟨v, Function.update a.client p { a.client p with reads := n }, Function.update a.pending p
      none⟩ := by
  have hno := h.no_writer hw
  refine h.effect ?_ fun q hq => ?_
  · rw [hv]
    simp [RwClient.weight, hno p]
    omega
  · have hq' : (Function.update a.client p { a.client p with reads := n } q).writes = false := by
      by_cases hqp : q = p
      · rw [hqp, Function.update_self]
        exact hno p
      · rw [Function.update_of_ne hqp]
        exact hno q
    rw [hq'] at hq
    cases hq

theorem neg_of_reads (h : RwInv a) (hp : 0 < (a.client p).reads) : a.cell.toInt < 0 := by
  have hno : ∀ q, (a.client q).writes = false := fun q => by
    by_contra hq
    obtain ⟨hself, hothers⟩ := h.alone q (by simpa using hq)
    by_cases hpq : p = q
    · rw [hpq, hself] at hp
      exact absurd hp (Nat.lt_irrefl 0)
    · rw [hothers p hpq] at hp
      exact absurd hp (Nat.lt_irrefl 0)
  have hrest : ∑ q ∈ Finset.univ.erase p, (a.client q).weight ≤ 0 :=
    Finset.sum_nonpos fun q _ => RwClient.weight_nonpos (hno q)
  have hself : (a.client p).weight = -(a.client p).reads := by simp [RwClient.weight, hno p]
  rw [h.word, ← Finset.add_sum_erase _ _ (Finset.mem_univ p), hself]
  omega

theorem effect_read (h : RwInv a) (hmsb : (a.cell - 1).msb = true) : RwInv ⟨a.cell - 1,
    Function.update a.client p { a.client p with reads := (a.client p).reads + 1 },
      Function.update a.pending p none⟩ := by
  obtain ⟨hle, hsub⟩ := toInt_sub_one hmsb
  refine h.effect_reads hle ?_
  rw [hsub]
  push_cast
  omega

theorem effect_write (h : RwInv a) (hzero : a.cell = 0) : RwInv ⟨1,
    Function.update a.client p { a.client p with writes := true }, Function.update a.pending p
      none⟩ := by
  have hfree := h.free (by rw [hzero]; rfl)
  rw [hfree p]
  refine h.effect ?_ fun q hq => ?_
  · rw [hfree p, hzero]
    decide
  · have hqp : q = p := by
      by_contra hqp
      rw [Function.update_of_ne hqp, hfree q] at hq
      cases hq
    subst hqp
    refine ⟨Function.update_self .., fun r hr => ?_⟩
    rw [Function.update_of_ne hr]
    exact hfree r

theorem effect_unwrite (h : RwInv a) (hp : (a.client p).writes = true) : RwInv ⟨0,
    Function.update a.client p { a.client p with writes := false }, Function.update a.pending p
      none⟩ := by
  obtain ⟨hself, hothers⟩ := h.alone p hp
  refine h.effect ?_ fun q hq => ?_
  · rw [h.word_of_writes hp, hself]
    decide
  · by_cases hqp : q = p
    · rw [hqp, Function.update_self] at hq
      cases hq
    · rw [Function.update_of_ne hqp, hothers q hqp] at hq
      cases hq

theorem step (h : RwInv a) (hstep : Exclusive.AtomStep rwLock a a') : RwInv a' := by
  cases hstep with
  | own p k _ hown => exact absurd hown id
  | call p c k _ hcall =>
    have hk : k = a.client p ∧ (c = .readUnlock → 0 < (a.client p).reads) ∧
        (c = .writeUnlock → (a.client p).writes = true) := by
      cases c with
      | readUnlock =>
        obtain ⟨hreads, ⟨rfl⟩⟩ := Option.ite_none_right_eq_some.mp hcall
        exact ⟨rfl, fun _ => hreads, by simp⟩
      | writeUnlock =>
        obtain ⟨hwrites, ⟨rfl⟩⟩ := Option.ite_none_right_eq_some.mp hcall
        exact ⟨rfl, by simp, fun _ => hwrites⟩
      | readLock | readTryLock | writeLock | writeTryLock =>
        exact ⟨(Option.some.inj hcall).symm, by simp, by simp⟩
    obtain ⟨rfl, hr, hw⟩ := hk
    rw [Function.update_eq_self]
    exact h.pend (fun hc => hr (Option.some.inj hc)) fun hc => hw (Option.some.inj hc)
  | effect p c v hpend hupd =>
    cases c with
    | readLock | readTryLock =>
      obtain ⟨hmsb, ⟨rfl⟩⟩ := Option.ite_none_right_eq_some.mp hupd
      exact h.effect_read hmsb
    | readUnlock =>
      obtain rfl := Option.some.inj hupd
      have hreads := h.reads p hpend
      have hneg := h.neg_of_reads hreads
      refine h.effect_reads hneg.le ?_
      rw [toInt_add_one hneg]
      omega
    | writeLock | writeTryLock =>
      obtain ⟨hzero, ⟨rfl⟩⟩ := Option.ite_none_right_eq_some.mp hupd
      exact h.effect_write hzero
    | writeUnlock =>
      obtain rfl := Option.some.inj hupd
      exact h.effect_unwrite (h.writes p hpend)
  | giveUp p c x hpend hgives =>
    obtain ⟨hc, rfl⟩ := hgives
    have hret : rwLock.ret (a.client p) c E_BUSY = a.client p := by
      rcases hc with rfl | rfl
      · rfl
      · rfl
    rw [hret, Function.update_eq_self]
    exact h.pend (by simp) (by simp)

end RwInv

end Readers

/-- The lock after `InitRWSpinLock`, and no caller. -/
abbrev rwLockStart (P : Type) : Exclusive.Machine P (BitVec 32) ER RwCall RwClient :=
  Exclusive.Machine.start 0 RwClient.none

/-- **The read write lock.** In every interleaving of the accesses, with exclusive stores failing as
they like, the word is the number of writers less the number of the read locks that are held; where
one processor writes no other one has anything; and a processor in a routine that asks for the lock
gets it, wherever it is, if nobody has anything and the others leave the lock alone for a while. A
call that is about to return success counts as returned. -/
theorem rwLock_exclusion {P : Type} [Fintype P] [DecidableEq P]
    {s : Exclusive.Machine P (BitVec 32) ER RwCall RwClient}
    (run : Relation.ReflTransGen (Exclusive.Step rwLock.toService) (rwLockStart P) s) :
    (∃ held : P → RwClient,
      (∀ p, held p = (s.thread p).client ∨
        ∃ c, (s.thread p).call = some (c, ret E_OK) ∧
          held p = rwLock.ret (s.thread p).client c E_OK) ∧
      s.cell.toInt = ∑ p, (held p).weight ∧
      ∀ p q, p ≠ q → (held p).writes = true → held q = RwClient.none) ∧
    ∀ p c rest, (s.thread p).call = some (c, rest) → c = .readLock ∨ c = .writeLock →
      (s.thread p).client = RwClient.none →
      (∀ q ≠ p, (s.thread q).call = none ∧ (s.thread q).client = RwClient.none) →
      Exclusive.Leads rwLock.toService p s (Exclusive.Returned rwLock p RwClient.none c) := by
  have hstart :
      RwInv (⟨0, fun _ : P => RwClient.none, fun _ => none⟩ : Exclusive.Atom P _ _ _) := by
    refine ⟨?_, fun p hp => absurd hp Bool.false_ne_true, fun p hp =>
        absurd hp.symm (Option.some_ne_none _), fun p hp =>
      absurd hp.symm (Option.some_ne_none _)⟩
    rw [Finset.sum_eq_zero fun _ _ => RwClient.weight_none]
    rfl
  obtain ⟨a, hsim, hinv⟩ := Exclusive.atom_inv rwLock_atomic RwInv hstart (fun _ _ h => h.step) run
  refine ⟨⟨a.client, fun p => ?_, hsim.cell ▸ hinv.word, fun p q hpq hp =>
    (hinv.alone p hp).2 q hpq.symm⟩, fun p c rest hcall hc hp hothers => ?_⟩
  · obtain h | ⟨c, w, h⟩ := (hsim.thread p).held
    · exact .inl h
    · exact .inr ⟨c, h⟩
  have hgives : ∀ x, ¬rwLock.gives c x := by
    rintro x ⟨hf | hf, -⟩ <;> rcases hc with rfl | rfl <;> cases hf
  have hclient : ∀ q ≠ p, a.client q = RwClient.none := fun q hq =>
    ((hsim.thread q).of_none (hothers q hq).1).1.trans (hothers q hq).2
  have hupd : a.pending p = some c → ∃ v, rwLock.upd c s.cell = some v := fun hpend => by
    have hself : a.client p = RwClient.none := ((hsim.thread p).of_pending hpend).1.trans hp
    have hcell : a.cell = 0 := by
      refine BitVec.eq_of_toInt_eq (hinv.word.trans (Finset.sum_eq_zero fun q _ => ?_))
      by_cases hq : q = p
      · rw [hq, hself]
        rfl
      · rw [hclient q hq]
        rfl
    rw [← hsim.cell, hcell]
    rcases hc with rfl | rfl
    · exact ⟨0 - 1, by decide⟩
    · exact ⟨1, by decide⟩
  have hleads :=
    Exclusive.leads_returned rwLock_atomic rwLock_prompt hgives hupd hcall (hsim.thread p)
  rwa [hp] at hleads

/-- Of two processors the first one, `false`, reads, and then the second one tries to write. -/
def rwLockTwo : Exclusive.Machine Bool (BitVec 32) ER RwCall RwClient :=
  let s := rwLockStart Bool
  let s :=
    s.set false { s.thread false with client := RwClient.none, call := some (.readLock, readLock) }
  let s := (Exclusive.solo rwLock.toService false)^[3] s
  let s :=
    s.set true { s.thread true with
      client := RwClient.none, call := some (.writeTryLock, writeTryLock) }
  (Exclusive.solo rwLock.toService true)^[2] s

theorem rwLockTwo_run :
    Relation.ReflTransGen (Exclusive.Step rwLock.toService) (rwLockStart Bool) rwLockTwo :=
  Exclusive.run_solo ((Exclusive.run_solo (Relation.ReflTransGen.refl.tail
    (Exclusive.Step.call false RwCall.readLock RwClient.none rfl rfl)) 3).tail
    (Exclusive.Step.call true RwCall.writeTryLock RwClient.none rfl rfl)) 2

/-- A processor has begun to ask for the write lock. -/
def rwLockAsked : Exclusive.Machine Bool (BitVec 32) ER RwCall RwClient :=
  let s := rwLockStart Bool
  let s :=
    s.set true { s.thread true with client := RwClient.none, call := some (.writeLock, writeLock) }
  Exclusive.solo rwLock.toService true s

theorem rwLockAsked_run :
    Relation.ReflTransGen (Exclusive.Step rwLock.toService) (rwLockStart Bool) rwLockAsked :=
  Exclusive.run_solo (Relation.ReflTransGen.refl.tail (Exclusive.Step.call true RwCall.writeLock
    RwClient.none rfl rfl)) 1

/-- While the first one has its read lock the second one gets nothing; on a free lock it gets what
it asks for. -/
theorem rwLock_exclusion_two :
    (∃ held : Bool → RwClient,
      held false = ⟨1, false⟩ ∧ rwLockTwo.cell.toInt = ∑ p, (held p).weight) ∧
    Exclusive.Leads rwLock.toService true rwLockAsked
      (Exclusive.Returned rwLock true RwClient.none .writeLock) := by
  refine ⟨?_, (rwLock_exclusion rwLockAsked_run).2 true .writeLock _ rfl (.inr rfl) rfl
    fun q hq => ?_⟩
  · obtain ⟨held, hheld, hword, -⟩ := (rwLock_exclusion rwLockTwo_run).1
    obtain h | ⟨c, h, -⟩ := hheld false
    · exact ⟨held, h, hword⟩
    · exact absurd h.symm (Option.some_ne_none _)
  · cases q with
    | false => exact ⟨rfl, rfl⟩
    | true => exact absurd rfl hq

/-! ## The counting spin lock -/

/-- Acquire spin lock. -/
def spinLock : LockProg :=
  ldrex fun r2 => if r2 ≠ 1 then strex 1 fun r2 => if r2 then retry else ret E_OK else retry

/-- Try to acquire spin lock. -/
def spinTryLock : LockProg :=
  ldrex fun r2 =>
    if r2 ≠ 1 then strex 1 fun r2 => if r2 then ret E_BUSY else ret E_OK else ret E_BUSY

/-- Release spin lock. -/
def spinUnlock : LockProg := str 0 (ret E_OK)

inductive SpinCall
  | lock
  | tryLock
  | unlock
  deriving DecidableEq, Repr

/-- `CountSpinLock`, `CountSpinTryLock` and `CountSpinUnlock` up to the call of the spin lock's
routine: the counter of the processor, and whether there is such a call. -/
def countEnter (cnt : ℕ) : SpinCall → ℕ × Bool
  | .lock | .tryLock => if cnt ≠ 0 then (cnt + 1, false) else (cnt, true)
  | .unlock => if cnt > 1 then (cnt - 1, false) else (cnt - 1, true)

/-- After the call. -/
def countLeave (cnt : ℕ) (c : SpinCall) (ercd : ER) : ℕ :=
  match c with
  | .lock => cnt + 1
  | .tryLock => if ercd = E_OK then cnt + 1 else cnt
  | .unlock => cnt

/-- The lock with the counters of its callers; a processor leaves only what it has entered, and the
counter does not overflow. -/
def countLock : Exclusive.Spec (BitVec 32) ER SpinCall ℕ where
  body
    | .lock => spinLock
    | .tryLock => spinTryLock
    | .unlock => spinUnlock
  call cnt c :=
    if (c = .unlock → 0 < cnt) ∧ (countEnter cnt c).2 then some (countEnter cnt c).1
    else Option.none
  ret := countLeave
  own cnt cnt' := ∃ c, (c = .unlock → 0 < cnt) ∧ countEnter cnt c = (cnt', false) ∧ cnt' < 2 ^ 32
  upd
    | .lock, v | .tryLock, v => if v ≠ 1 then some 1 else Option.none
    | .unlock, _ => some 0
  res _ _ := E_OK
  gives c a := c = .tryLock ∧ a = E_BUSY

theorem countLock_atomic : countLock.Atomic := by
  intro c
  cases c with
  | lock =>
    intro v
    beta_reduce
    by_cases h : v ≠ 1
    · rw [if_pos h]
      exact .inl ⟨if_pos h, rfl, trivial⟩
    · rw [if_neg h]
      exact .inl trivial
  | tryLock =>
    intro v
    beta_reduce
    by_cases h : v ≠ 1
    · rw [if_pos h]
      exact .inl ⟨if_pos h, rfl, rfl, rfl⟩
    · rw [if_neg h]
      exact .inl ⟨rfl, rfl⟩
  | unlock => exact fun _ => ⟨rfl, rfl⟩

theorem countLock_prompt : countLock.Prompt := by
  intro c v v' h
  cases c with
  | lock | tryLock =>
    obtain ⟨hfree, ⟨rfl⟩⟩ := Option.ite_none_right_eq_some.mp h
    exact .inr ⟨_, rfl, .inl ⟨_, if_pos hfree⟩⟩
  | unlock =>
    obtain rfl := Option.some.inj h
    exact .inl ⟨_, rfl⟩

section Counts

variable {P : Type} [DecidableEq P] {a a' : Exclusive.Atom P (BitVec 32) SpinCall ℕ} {p : P}

/-- In a critical section, or on the way out. -/
def InSection (a : Exclusive.Atom P (BitVec 32) SpinCall ℕ) (p : P) : Prop :=
  a.client p ≠ 0 ∨ a.pending p = some .unlock

/-- One processor is in, and then the word says so; the counter of a processor that calls is
zero. -/
structure CountInv (a : Exclusive.Atom P (BitVec 32) SpinCall ℕ) : Prop where
  one : ∀ p q, InSection a p → InSection a q → p = q
  taken : ∀ p, InSection a p → a.cell = 1
  free : (∀ p, ¬InSection a p) → a.cell = 0
  calls : ∀ p, a.pending p ≠ none → a.client p = 0

omit [DecidableEq P] in
theorem CountInv.congr (h : CountInv a) (hcell : a'.cell = a.cell)
    (hin : ∀ q, InSection a' q ↔ InSection a q)
    (hcalls : ∀ q, a'.pending q ≠ none → a'.client q = 0) : CountInv a' := by
  refine ⟨fun p q hp hq => h.one p q ((hin p).mp hp) ((hin q).mp hq), fun p hp => ?_,
    fun hno => ?_, hcalls⟩
  · rw [hcell]
    exact h.taken p ((hin p).mp hp)
  · rw [hcell]
    exact h.free fun p hp => hno p ((hin p).mpr hp)

theorem inSection_of_ne {v : BitVec 32} {k : ℕ} {o : Option SpinCall} {q : P} (hq : q ≠ p) :
    InSection ⟨v, Function.update a.client p k, Function.update a.pending p o⟩ q ↔
      InSection a q := by
  unfold InSection
  dsimp only
  rw [Function.update_of_ne hq, Function.update_of_ne hq]

theorem inSection_self {v : BitVec 32} {k : ℕ} {o : Option SpinCall} :
    InSection ⟨v, Function.update a.client p k, Function.update a.pending p o⟩ p ↔ k ≠ 0 ∨
      o = some .unlock := by
  unfold InSection
  dsimp only
  rw [Function.update_self, Function.update_self]

theorem CountInv.calls_update (h : CountInv a) {k : ℕ} {o : Option SpinCall} (hk : o ≠ none → k = 0)
    (q : P) (hq : Function.update a.pending p o q ≠ none) : Function.update a.client p k q = 0 := by
  by_cases hqp : q = p
  · subst hqp
    rw [Function.update_self] at hq ⊢
    exact hk hq
  · rw [Function.update_of_ne hqp] at hq ⊢
    exact h.calls q hq

theorem CountInv.change (h : CountInv a) {k : ℕ} {o : Option SpinCall} (hk : o ≠ none → k = 0)
    (hin : k ≠ 0 ∨ o = some .unlock ↔ InSection a p) :
    CountInv ⟨a.cell, Function.update a.client p k, Function.update a.pending p o⟩ := by
  refine h.congr rfl (fun q => ?_) (h.calls_update hk)
  by_cases hqp : q = p
  · rw [hqp]
    exact inSection_self.trans hin
  · exact inSection_of_ne hqp

theorem countEnter_false {cnt cnt' : ℕ} {c : SpinCall} (h : countEnter cnt c = (cnt', false)) :
    cnt ≠ 0 ∧ cnt' ≠ 0 := by
  cases c with
  | lock | tryLock =>
    rw [countEnter] at h
    split_ifs at h with hc
    · obtain ⟨rfl, -⟩ := Prod.mk.inj h
      exact ⟨hc, by omega⟩
    · exact absurd (Prod.mk.inj h).2 (by decide)
  | unlock =>
    rw [countEnter] at h
    split_ifs at h with hc
    · obtain ⟨rfl, -⟩ := Prod.mk.inj h
      exact ⟨by omega, by omega⟩
    · exact absurd (Prod.mk.inj h).2 (by decide)

/-- Who calls a routine of the spin lock has left or has not entered. -/
theorem countEnter_true {cnt : ℕ} {c : SpinCall} (hc : c = .unlock → 0 < cnt)
    (h : (countEnter cnt c).2 = true) :
    (countEnter cnt c).1 = 0 ∧ (cnt ≠ 0 ↔ c = .unlock) := by
  cases c with
  | lock | tryLock =>
    rw [countEnter] at h ⊢
    split_ifs at h ⊢ with hcnt
    exact ⟨not_not.mp hcnt, by simp [not_not.mp hcnt]⟩
  | unlock =>
    have := hc rfl
    rw [countEnter] at h ⊢
    split_ifs at h ⊢ with hcnt
    exact ⟨by omega, by simp; omega⟩

theorem CountInv.step (h : CountInv a) (hstep : Exclusive.AtomStep countLock a a') :
    CountInv a' := by
  cases hstep with
  | own p k hpend hown =>
    obtain ⟨c, -, henter, -⟩ := hown
    obtain ⟨hcnt, hk⟩ := countEnter_false henter
    exact h.change (fun hne => absurd rfl hne) (iff_of_true (.inl hk) (.inl hcnt))
  | call p c k hpend hcall =>
    obtain ⟨⟨hc, henter⟩, ⟨rfl⟩⟩ := Option.ite_none_right_eq_some.mp hcall
    obtain ⟨hk, hcnt⟩ := countEnter_true hc henter
    rw [hk]
    refine h.change (fun _ => rfl) ?_
    unfold InSection
    rw [hcnt, hpend]
    simp
  | effect p c v hpend hupd =>
    have hzero : a.client p = 0 := h.calls p (by rw [hpend]; exact Option.some_ne_none c)
    cases c with
    | lock | tryLock =>
      obtain ⟨hfree, ⟨rfl⟩⟩ := Option.ite_none_right_eq_some.mp hupd
      have hno : ∀ q, ¬InSection a q := fun q hq => hfree (h.taken q hq)
      have honly : ∀ q, InSection ⟨1, Function.update a.client p (a.client p + 1),
        Function.update a.pending p none⟩ q →
          q = p := fun q hq => by
        by_contra hqp
        exact hno q ((inSection_of_ne hqp).mp hq)
      refine ⟨fun q r hq hr => (honly q hq).trans (honly r hr).symm, fun _ _ => rfl, fun hout => ?_,
        h.calls_update fun hne => absurd rfl hne⟩
      exact absurd (inSection_self.mpr (.inl (Nat.succ_ne_zero _))) (hout p)
    | unlock =>
      obtain rfl := Option.some.inj hupd
      have hin : InSection a p := .inr hpend
      have hout : ∀ q, ¬InSection ⟨0, Function.update a.client p (a.client p),
          Function.update a.pending p none⟩ q :=
        fun q hq => by
          by_cases hqp : q = p
          · rw [hqp, inSection_self, hzero] at hq
            simp at hq
          · exact hqp (h.one q p ((inSection_of_ne hqp).mp hq) hin)
      exact ⟨fun q r hq => absurd hq (hout q), fun q hq => absurd hq (hout q), fun _ => rfl,
        h.calls_update fun hne => absurd rfl hne⟩
  | giveUp p c x hpend hgives =>
    obtain ⟨rfl, rfl⟩ := hgives
    have hzero : a.client p = 0 := h.calls p (by rw [hpend]; exact Option.some_ne_none _)
    refine h.change (k := a.client p) (fun hne => absurd rfl hne) ?_
    unfold InSection
    rw [hpend, hzero]
    simp

end Counts

/-- The lock after `InitCountSpinLock`, and no caller. -/
abbrev countLockStart (P : Type) : Exclusive.Machine P (BitVec 32) ER SpinCall ℕ :=
  Exclusive.Machine.start 0 0

/-- **The critical sections of the kernel.** In every interleaving of the accesses of the
processors, with exclusive stores failing as they like, no two are in: the counter is zero on all
but one of them, and while it is not zero on one the word is taken. `CountSpinLock` enters, wherever
it is, if nobody is in and the others leave the lock alone for a while. The counter of a call that
is about to return counts as returned. -/
theorem countLock_exclusion {P : Type} [DecidableEq P]
    {s : Exclusive.Machine P (BitVec 32) ER SpinCall ℕ}
    (run : Relation.ReflTransGen (Exclusive.Step countLock.toService) (countLockStart P) s) :
    (∃ held : P → ℕ,
      (∀ p, held p = (s.thread p).client ∨
        ∃ c, (s.thread p).call = some (c, ret E_OK) ∧
          held p = countLock.ret (s.thread p).client c E_OK) ∧
      (∀ p q, held p ≠ 0 → held q ≠ 0 → p = q) ∧ ∀ p, held p ≠ 0 → s.cell = 1) ∧
    ∀ p rest, (s.thread p).call = some (.lock, rest) →
      (∀ q ≠ p, (s.thread q).call = none ∧ (s.thread q).client = 0) →
      Exclusive.Leads countLock.toService p s
        (Exclusive.Returned countLock p (s.thread p).client .lock) := by
  have hstart :
      CountInv (⟨0, fun _ : P => 0, fun _ => none⟩ : Exclusive.Atom P (BitVec 32) SpinCall ℕ) := by
    have hout : ∀ p, ¬InSection (⟨0, fun _ : P => 0, fun _ => none⟩ : Exclusive.Atom P (BitVec 32)
        SpinCall ℕ) p := by
      intro p hp
      simp [InSection] at hp
    exact ⟨fun p q hp => absurd hp (hout p), fun p hp => absurd hp (hout p), fun _ =>
      rfl, fun p hp => absurd rfl hp⟩
  obtain ⟨a, hsim, hinv⟩ :=
    Exclusive.atom_inv countLock_atomic CountInv hstart (fun _ _ h => h.step) run
  refine ⟨⟨a.client, fun p => ?_, fun p q hp hq => hinv.one p q (.inl hp) (.inl hq), fun p hp =>
    hsim.cell ▸ hinv.taken p (.inl hp)⟩, fun p rest hcall hothers => ?_⟩
  · obtain h | ⟨c, w, h⟩ := (hsim.thread p).held
    · exact .inl h
    · exact .inr ⟨c, h⟩
  have hout : ∀ q ≠ p, ¬InSection a q := fun q hq => by
    obtain ⟨hk, ho⟩ := (hsim.thread q).of_none (hothers q hq).1
    rw [InSection, hk, ho, (hothers q hq).2]
    simp
  have hgives : ∀ x, ¬countLock.gives .lock x := by
    rintro x ⟨hf, -⟩
    cases hf
  have hupd : a.pending p = some .lock → ∃ v, countLock.upd .lock s.cell = some v := fun hpend => by
    have hcell : a.cell = 0 := hinv.free fun q => by
      by_cases hq : q = p
      · rw [hq, InSection, hinv.calls p (by rw [hpend]; exact Option.some_ne_none _), hpend]
        simp
      · exact hout q hq
    rw [← hsim.cell, hcell]
    exact ⟨1, by decide⟩
  exact Exclusive.leads_returned countLock_atomic countLock_prompt hgives hupd hcall (hsim.thread p)

/-- The first processor enters twice, and then the second one tries. -/
def countLockTwo : Exclusive.Machine Bool (BitVec 32) ER SpinCall ℕ :=
  let s := countLockStart Bool
  let s := s.set false { s.thread false with client := 0, call := some (.lock, spinLock) }
  let s := (Exclusive.solo countLock.toService false)^[3] s
  let s := s.set false { s.thread false with client := 2 }
  let s := s.set true { s.thread true with client := 0, call := some (.tryLock, spinTryLock) }
  (Exclusive.solo countLock.toService true)^[2] s

theorem countLockTwo_run :
    Relation.ReflTransGen (Exclusive.Step countLock.toService) (countLockStart Bool) countLockTwo :=
  Exclusive.run_solo (((Exclusive.run_solo (Relation.ReflTransGen.refl.tail
    (Exclusive.Step.call false SpinCall.lock 0 rfl rfl)) 3).tail
    (Exclusive.Step.own (S := countLock.toService) false 2 rfl ⟨.lock, by decide, rfl, by
      decide⟩)).tail
    (Exclusive.Step.call true SpinCall.tryLock 0 rfl rfl)) 2

/-- The first one is in, twice, so the second one is not. -/
theorem countLock_exclusion_two : ∃ held : Bool → ℕ, held false = 2 ∧ held true = 0 ∧
    countLockTwo.cell = 1 := by
  obtain ⟨held, hheld, hone, hword⟩ := (countLock_exclusion countLockTwo_run).1
  have hfirst : held false = 2 := by
    obtain h | ⟨c, h, -⟩ := hheld false
    · exact h
    · exact absurd h.symm (Option.some_ne_none _)
  have hin : held false ≠ 0 := by
    rw [hfirst]
    exact two_ne_zero
  refine ⟨held, hfirst, ?_, hword false hin⟩
  by_contra hsecond
  exact absurd (hone false true hin hsecond) (by decide)

end SmpTKernel
