import SmpTKernel.ImallocRoom
import SmpTKernel.Lib.Ownership
import SmpTKernel.PageTable
import SmpTKernel.TaskStack

/-!
# Who owns the stacks

As integers, the sizes of a packet are what it asks for, and `StackFits` says that neither the sum
nor the rounding leaves the range of an `INT`. The areas are owned by the calls under way and by the
tasks. `StackInv` says that they are outstanding, each owned once, with the sizes computed, and that
`_del_tsk` finds the areas of every task; every step keeps it.
-/

namespace SmpTKernel

open Ownership

variable {cfg : StackCfg} {pk : T_CTSK} {x : BitVec 32}

/-! ## Sizes -/

theorem bmod_small {x : ℤ} (h0 : 0 ≤ x) (h : x < 2 ^ 31) : x.bmod (2 ^ 32) = x := by
  rw [Int.bmod_def]
  split_ifs <;> omega

theorem bmod_neg {x : ℤ} (h0 : x ≤ 0) (h : -2 ^ 31 ≤ x) : x.bmod (2 ^ 32) = x := by
  rw [Int.bmod_def]
  split_ifs <;> omega

theorem toNat_of_toInt {n : ℤ} (h : x.toInt = n) :
    (x.toNat : ℤ) = if 0 ≤ n then n else n + 2 ^ 32 := by
  rw [BitVec.toInt_eq_toNat_cond] at h
  have := x.isLt
  split_ifs at h ⊢ <;> omega

theorem toInt_adjustStack (h0 : 0 ≤ x.toInt) (h : x.toInt + 7 < 2 ^ 31) :
    (adjustStack x).toInt = (x.toInt + 7) / 8 * 8 := by
  have h7 : (7 : BitVec 32).toInt = 7 := by decide
  have h8 : (8 : BitVec 32).toInt = 8 := by decide
  rw [adjustStack, BitVec.toInt_mul, BitVec.toInt_sdiv, BitVec.toInt_add, h7, h8,
    bmod_small (by omega) h, Int.tdiv_eq_ediv_of_nonneg (by omega),
    bmod_small (x := (x.toInt + 7) / 8) (by omega)
    (by omega), bmod_small (by omega) (by omega)]

/-- Where the sum or the rounding overflows, the result is negative, and rounded towards zero. -/
theorem toInt_adjustStack_overflow (h : 2 ^ 31 ≤ x.toNat + 7) (hlt : x.toNat + 7 < 2 ^ 32) :
    (adjustStack x).toInt = -((2 ^ 32 - 7 - x.toNat) / 8 * 8 : ℤ) := by
  have h7 : (7 : BitVec 32).toInt = 7 := by decide
  have h8 : (8 : BitVec 32).toInt = 8 := by decide
  have hsum : (x.toInt + 7).bmod (2 ^ 32) = -(2 ^ 32 - 7 - x.toNat) := by
    rw [BitVec.toInt_eq_toNat_cond, Int.bmod_def]
    split_ifs <;> omega
  rw [adjustStack, BitVec.toInt_mul, BitVec.toInt_sdiv, BitVec.toInt_add, h7, h8, hsum,
    Int.neg_tdiv, Int.tdiv_eq_ediv_of_nonneg (by omega),
    bmod_neg (x := -((2 ^ 32 - 7 - (x.toNat : ℤ)) / 8))
    (by omega) (by omega), bmod_neg (by omega) (by omega)]
  omega

/-- The bytes of system stack a packet asks for. -/
def T_CTSK.sysNeed (cfg : StackCfg) (pk : T_CTSK) : ℤ :=
  (sstkszArg cfg pk).toInt + if pk.rng0 then pk.stksz.toInt else 0

/-- The bytes of user stack a packet asks for. -/
def T_CTSK.userNeed (pk : T_CTSK) : ℤ := if pk.rng0 then 0 else pk.stksz.toInt

/-- Neither the sum nor a rounding leaves the range of `INT`. -/
structure StackFits (cfg : StackCfg) (pk : T_CTSK) : Prop where
  sys : pk.sysNeed cfg + 7 < 2 ^ 31
  user : pk.userNeed + 7 < 2 ^ 31

/-- The sizes that are allocated are not too small: the system stack may overflow `INT`, as it is
allocated as unsigned, up to where `imalloc` cannot get pages for it. -/
structure StackRoomy (cfg : StackCfg) (pk : T_CTSK) : Prop where
  sys : pk.sysNeed cfg + 23 + PAGESZ ≤ 2 ^ 32
  user : pk.userNeed + 7 < 2 ^ 31

theorem StackFits.roomy (h : StackFits cfg pk) : StackRoomy cfg pk := by
  have hp : PAGESZ = 2048 := rfl
  have := h.sys
  exact ⟨by omega, h.user⟩

theorem of_ite_ok {p : Prop} [Decidable p] {e r : ER} (he : e ≠ E_OK)
    (h : (if p then e else r) = E_OK) :
    ¬p ∧ r = E_OK := by
  by_cases hp : p
  · rw [if_pos hp] at h
    exact absurd h he
  · rw [if_neg hp] at h
    exact ⟨hp, h⟩

/-- What the checks say about the sizes. -/
theorem accepted_sizes (h : creTskCheck cfg pk = E_OK) :
    0 ≤ pk.stksz.toInt ∧ MIN_SYS_STACK_SIZE ≤ (sstkszArg cfg pk).toInt := by
  unfold creTskCheck at h
  obtain ⟨-, h⟩ := of_ite_ok (by decide) h
  obtain ⟨-, h⟩ := of_ite_ok (by decide) h
  obtain ⟨-, h⟩ := of_ite_ok (by decide) h
  obtain ⟨huser, h⟩ := of_ite_ok (by decide) h
  obtain ⟨hsize, h⟩ := of_ite_ok (by decide) h
  obtain ⟨-, h⟩ := of_ite_ok (by decide) h
  obtain ⟨-, h⟩ := of_ite_ok (by decide) h
  obtain ⟨-, h⟩ := of_ite_ok (by decide) h
  obtain ⟨-, h⟩ := of_ite_ok (by decide) h
  obtain ⟨-, h⟩ := of_ite_ok (by decide) h
  obtain ⟨hmin, -⟩ := of_ite_ok (by decide) h
  constructor
  · by_cases hu : pk.tskatr &&& TA_USERSTACK = 0
    · by_contra hneg
      exact hsize ⟨hu, by omega⟩
    · have h0 : pk.stksz = 0 := by
        by_contra hne
        exact huser ⟨hu, Or.inr hne⟩
      rw [h0]
      decide
  · unfold sstkszArg
    split_ifs with hs
    · by_contra hlt
      exact hmin ⟨hs, lt_of_not_ge hlt⟩
    · exact cfg.default_ge

theorem userNeed_nonneg (hacc : creTskCheck cfg pk = E_OK) : 0 ≤ pk.userNeed := by
  obtain ⟨h0, -⟩ := accepted_sizes hacc
  unfold T_CTSK.userNeed
  split_ifs <;> omega

theorem sizeOk_of_le {n : ℕ} (h : n + 2 * QUEUESZ + PAGESZ ≤ 2 ^ 32) : SizeOk PAGESZ n := by
  unfold SizeOk
  have hq : QUEUESZ = 8 := rfl
  have hmf : MIN_FRAGMENT = 16 := rfl
  have hp : PAGESZ = 2048 := rfl
  omega

/-- The system stack that is allocated is large enough, and `imalloc` can round its size. -/
theorem StackRoomy.sstksz (h : StackRoomy cfg pk) (hacc : creTskCheck cfg pk = E_OK) :
    pk.sysNeed cfg ≤ (sstkszOf cfg pk).toNat ∧ SizeOk PAGESZ (sstkszOf cfg pk).toNat := by
  obtain ⟨h0, hmin⟩ := accepted_sizes hacc
  have hmin : 1024 ≤ (sstkszArg cfg pk).toInt := hmin
  have hp : PAGESZ = 2048 := rfl
  have hsys := h.sys
  obtain ⟨x, hx, hneed⟩ : ∃ x, sstkszOf cfg pk = adjustStack x ∧
      (x.toNat : ℤ) = pk.sysNeed cfg := by
    have ha := toNat_of_toInt (x := sstkszArg cfg pk) rfl
    have hs := toNat_of_toInt (x := pk.stksz) rfl
    rw [if_pos (by omega)] at ha hs
    unfold sstkszOf T_CTSK.sysNeed at *
    split_ifs at hsys ⊢
    · refine ⟨_, rfl, ?_⟩
      rw [BitVec.toNat_add]
      omega
    · exact ⟨_, rfl, by omega⟩
  have hlarge : pk.sysNeed cfg ≤ (adjustStack x).toNat ∧
      (adjustStack x).toNat + 2 * QUEUESZ + PAGESZ ≤ 2 ^ 32 := by
    have hq : QUEUESZ = 8 := rfl
    by_cases hover : x.toNat + 7 < 2 ^ 31
    · have hx : x.toInt = x.toNat := by
        rw [BitVec.toInt_eq_toNat_cond, if_pos (by omega)]
      have := toNat_of_toInt (toInt_adjustStack (x := x) (by omega) (by omega))
      rw [if_pos (by omega)] at this
      omega
    · have := toNat_of_toInt (toInt_adjustStack_overflow (x := x) (by omega) (by omega))
      split_ifs at this <;> omega
  rw [hx]
  exact ⟨hlarge.1, sizeOk_of_le hlarge.2⟩

theorem StackRoomy.toInt_stksz (h : StackRoomy cfg pk) (hacc : creTskCheck cfg pk = E_OK) :
    (stkszOf pk).toInt = (pk.userNeed + 7) / 8 * 8 := by
  obtain ⟨h0, -⟩ := accepted_sizes hacc
  have huser := h.user
  unfold T_CTSK.userNeed at huser ⊢
  unfold stkszOf
  cases hr : pk.rng0 with
  | false =>
    simp only [hr, Bool.false_eq_true, if_false] at huser ⊢
    exact toInt_adjustStack h0 huser
  | true =>
    simp only [if_true]
    decide

theorem StackRoomy.stksz (h : StackRoomy cfg pk) (hacc : creTskCheck cfg pk = E_OK) :
    pk.userNeed ≤ (stkszOf pk).toNat ∧ SizeOk PAGESZ (stkszOf pk).toNat := by
  have h0 := userNeed_nonneg hacc
  have e := toNat_of_toInt (h.toInt_stksz hacc)
  rw [if_pos (by omega)] at e
  have hq : QUEUESZ = 8 := rfl
  have hp : PAGESZ = 2048 := rfl
  have := h.user
  exact ⟨by omega, sizeOk_of_le (by omega)⟩

theorem StackRoomy.user_pos (h : StackRoomy cfg pk) (hacc : creTskCheck cfg pk = E_OK)
    (hpos : 0 < pk.userNeed) :
    0 < (stkszOf pk).toInt := by
  rw [h.toInt_stksz hacc]
  omega

/-- Without room for the rounded size no user stack is asked for. -/
theorem stksz_overflow (h : 2 ^ 31 ≤ pk.userNeed + 7) : (stkszOf pk).toInt < 0 := by
  unfold T_CTSK.userNeed at h
  unfold stkszOf
  split_ifs at h ⊢ with hr
  · omega
  · have hlt := BitVec.toInt_lt (x := pk.stksz)
    have hnat := toNat_of_toInt (x := pk.stksz) rfl
    rw [if_pos (by omega)] at hnat
    rw [toInt_adjustStack_overflow (by omega) (by omega)]
    omega

/-! ## Steps -/

/-- What the calls did to each memory, and for each task the packet it was created with and the
areas allocated for it. -/
structure StackHist where
  ev : ℕ × ℕ → List ImEvent
  made : ℕ → Option (T_CTSK × List ImallocArea)

/-- The steps of the calls, by caller, and what else is done with the memory. -/
inductive StackOp
  | im (c : ℕ × ℕ) (op : ImOp)
  | creTsk (k : ℕ) (pk : T_CTSK)
  | malloc (k : ℕ)
  | pages (k : ℕ) (q : Option ℕ)
  | enter (k t : ℕ) (ercd : ER)
  | delTsk (k t : ℕ)
  | free (k : ℕ) (di : Bool)

def StackOp.run (cfg : StackCfg) (s : StackSys) : StackOp → StackRes
  | im c op =>
    ⟨{ s with im := Function.update s.im c (op.run (s.im c)).1 }, c, (op.run (s.im c)).2, none⟩
  | creTsk k pk => s.creTsk cfg pk k
  | malloc k => s.malloc cfg k
  | pages k q => s.pages cfg k q
  | enter k t ercd => s.enter cfg k t ercd
  | delTsk k t => s.delTsk cfg k t
  | free k di => s.free k di

/-- The areas `tk_cre_tsk` has got. -/
def allocated (pk : T_CTSK) (sstack : ℕ) (stack : Option ℕ) : List ImallocArea :=
  ⟨SelIMACB TA_RNG0, sstack⟩ :: stack.toList.map (⟨SelIMACB pk.tskatr, ·⟩)

/-- The tasks after a critical section in which task `t` may have been created. -/
def madeBy (made : ℕ → Option (T_CTSK × List ImallocArea)) (t : ℕ) (ercd : ER) :
    Option TskCall → ℕ → Option (T_CTSK × List ImallocArea)
  | some (.creTsk pk (.enter sstack stack)) =>
    if ercd < E_OK then made else Function.update made t (some (pk, allocated pk sstack stack))
  | _ => made

def StackOp.made (s : StackSys) (made : ℕ → Option (T_CTSK × List ImallocArea)) :
    StackOp → ℕ → Option (T_CTSK × List ImallocArea)
  | enter k t ercd => madeBy made t ercd (s.call k)
  | delTsk _ t => Function.update made t none
  | _ => made

def StackHist.after (cfg : StackCfg) (g : StackHist) (s : StackSys) (op : StackOp) : StackHist where
  ev := Function.update g.ev (op.run cfg s).imacb (g.ev (op.run cfg s).imacb ++ (op.run cfg s).ev)
  made := op.made s g.made

/-- The areas a call owns. -/
def TskCall.areas : TskCall → List ImallocArea
  | creTsk _ .sstack => []
  | creTsk _ .sstackPages => []
  | creTsk _ (.stack sstack) => [⟨SelIMACB TA_RNG0, sstack⟩]
  | creTsk _ (.stackPages sstack) => [⟨SelIMACB TA_RNG0, sstack⟩]
  | creTsk pk (.enter sstack stack) => allocated pk sstack stack
  | frees areas _ => areas

/-- What the callers and the tasks own. -/
def owners (s : StackSys) (g : StackHist) : ℕ ⊕ ℕ → List ImallocArea
  | .inl k => (s.call k).elim [] TskCall.areas
  | .inr t => (g.made t).elim [] Prod.snd

/-- The call of `imalloc` that gets pages. -/
def TskCall.asks (cfg : StackCfg) : TskCall → Option ((ℕ × ℕ) × ImCall)
  | creTsk pk .sstackPages => some (SelIMACB TA_RNG0, ⟨(sstkszOf cfg pk).toNat, false⟩)
  | creTsk pk (.stackPages _) => some (SelIMACB pk.tskatr, ⟨(stkszOf pk).toNat, false⟩)
  | _ => none

/-- `n` pages at `z` lie in the range of the page allocator, which begins with its table and ends
below the end of the address space. -/
structure InPool (z n : ℕ) : Prop where
  le : PAGESZ ≤ z
  lt : z + n * PAGESZ < 2 ^ 32

/-- What `imalloc` requires of those who use the memory, who do not free the stacks; `GetSysMemBlk`
returns fresh pages; a caller makes one call at a time, and a free control block is taken. -/
def StackOp.Legal (cfg : StackCfg) (P : T_CTSK → Prop) (s : StackSys) (g : StackHist) : StackOp →
    Prop
  | im c op => op.Legal (s.im c) (outAreas (g.ev c)) (heldBlocks (g.ev c)) ∧
      (∀ ptr di, op = .free ptr di → ∀ o, ⟨c, ptr⟩ ∉ owners s g o) ∧
      ∀ call z, op = .pages call (some z) → InPool z (imPages (s.im c) call)
  | creTsk k pk => s.call k = none ∧ P pk
  | pages k q => ∀ call ∈ s.call k, ∀ a ∈ call.asks cfg, a.2 ∈ (s.im a.1).pending ∧
    ∀ z ∈ q, Fresh (s.im a.1) (heldBlocks (g.ev a.1)) z (imPages (s.im a.1) a.2) ∧
      InPool z (imPages (s.im a.1) a.2)
  | enter _ t ercd => E_OK ≤ ercd → s.tcb t = none
  | delTsk k _ => s.call k = none
  | malloc _ => True
  | free _ _ => True

/-! ## The invariant -/

/-- The area is outstanding, asked for with the size `z`. -/
def StackHist.Got (g : StackHist) (a : ImallocArea) (z : ℤ) : Prop :=
  (a.ptr, z) ∈ outAreas (g.ev a.imacb)

def StackHist.Live (g : StackHist) (a : ImallocArea) : Prop := ∃ z, g.Got a z

/-- The areas of a task are there. -/
structure AllocatedFor (cfg : StackCfg) (g : StackHist) (pk : T_CTSK) (sstack : ℕ)
    (stack : Option ℕ) : Prop where
  sys : g.Got ⟨SelIMACB TA_RNG0, sstack⟩ (sstkszOf cfg pk).toNat
  user : ∀ p ∈ stack, g.Got ⟨SelIMACB pk.tskatr, p⟩ (stkszOf pk).toNat
  iff : stack.isSome ↔ 0 < (stkszOf pk).toInt

def StageOk (cfg : StackCfg) (g : StackHist) (pk : T_CTSK) : CreStage → Prop
  | .sstack => True
  | .sstackPages => True
  | .stack sstack =>
    g.Got ⟨SelIMACB TA_RNG0, sstack⟩ (sstkszOf cfg pk).toNat ∧ 0 < (stkszOf pk).toInt
  | .stackPages sstack =>
    g.Got ⟨SelIMACB TA_RNG0, sstack⟩ (sstkszOf cfg pk).toNat ∧ 0 < (stkszOf pk).toInt
  | .enter sstack stack => AllocatedFor cfg g pk sstack stack

/-- The packet passed the checks, and the sizes that are allocated are not too small. -/
structure PacketOk (cfg : StackCfg) (pk : T_CTSK) : Prop where
  accepted : creTskCheck cfg pk = E_OK
  roomy : StackRoomy cfg pk

/-- A task was created with this packet and has these areas. -/
structure TaskOk (cfg : StackCfg) (g : StackHist) (tcb : Option StackTcb) (pk : T_CTSK)
    (areas : List ImallocArea) : Prop where
  packet : PacketOk cfg pk
  got : ∃ sstack stack, areas = allocated pk sstack stack ∧ AllocatedFor cfg g pk sstack stack
  freed : ∃ c ∈ tcb, delAreas cfg c = areas

structure StackInv (cfg : StackCfg) (s₀ s : StackSys) (g : StackHist) : Prop where
  runs : ∀ c, ImRun (s₀.im c) (s.im c) (g.ev c)
  holdings : Holdings (owners s g) g.Live
  call : ∀ k pk stage, s.call k = some (.creTsk pk stage) → PacketOk cfg pk ∧ StageOk cfg g pk stage
  task : ∀ t pk areas, g.made t = some (pk, areas) → TaskOk cfg g (s.tcb t) pk areas
  made : ∀ t, s.tcb t ≠ none → g.made t ≠ none

variable {s₀ s s' : StackSys} {g g' : StackHist} {sstack : ℕ} {stack : Option ℕ} {stage : CreStage}
  {areas : List ImallocArea} {k t : ℕ} {c : ℕ × ℕ} {e : List ImEvent} {size : ℕ}

/-! ## The history -/

/-- What `imalloc` returns: nothing yet or `NULL`, or an area of `size` bytes. -/
def Answers (size : ℕ) (e : List ImEvent) : Prop :=
  (gotPtr e = none ∧ ∀ out, e.foldl ImEvent.track out = out) ∨
    ∃ p, gotPtr e = some p ∧ ∀ out, e.foldl ImEvent.track out = (p, (size : ℤ)) :: out

theorem answers_imalloc (im : Imacb) (call : ImCall) : Answers call.size (imalloc im call).2 := by
  rcases imalloc_events im call with e | ⟨p, e⟩ <;> rw [e]
  · exact Or.inl ⟨rfl, fun _ => rfl⟩
  · exact Or.inr ⟨p, rfl, fun _ => rfl⟩

theorem answers_pages (im : Imacb) (call : ImCall) (q : Option ℕ) :
    Answers call.size (imallocPages im call q).2 := by
  cases q with
  | none =>
    rw [imallocPages_none]
    exact Or.inl ⟨rfl, fun _ => rfl⟩
  | some q =>
    obtain ⟨p, e⟩ := imallocPages_some im call q
    rw [e]
    exact Or.inr ⟨p, rfl, fun _ => rfl⟩

theorem outAreas_append (h e : List ImEvent) :
    outAreas (h ++ e) = e.foldl ImEvent.track (outAreas h) :=
  List.foldl_append

theorem got_update_of_ne {ev : ℕ × ℕ → List ImEvent} {m n : ℕ → Option (T_CTSK × List ImallocArea)}
    {a : ImallocArea} {z : ℤ} (hne : a.imacb ≠ c) :
    (⟨Function.update ev c e, n⟩ : StackHist).Got a z ↔ (⟨ev, m⟩ : StackHist).Got a z := by
  show (a.ptr, z) ∈ outAreas (Function.update ev c e a.imacb) ↔ _
  rw [Function.update_of_ne hne]
  rfl

/-- After an answer the areas that were outstanding still are, and the one returned is new. -/
theorem answered (ans : Answers size e) {ev : ℕ × ℕ → List ImEvent}
    {m n : ℕ → Option (T_CTSK × List ImallocArea)} {im : Imacb} {held : List (ℕ × ℕ)}
    (inv : ImInv im (outAreas (ev c ++ e)) held) :
    let g : StackHist := ⟨ev, m⟩
    let g' : StackHist := ⟨Function.update ev c (ev c ++ e), n⟩
    (∀ a z, g.Got a z → g'.Got a z) ∧ ∀ p ∈ gotPtr e, g'.Got ⟨c, p⟩ size ∧ ¬g.Live ⟨c, p⟩ := by
  intro g g'
  rw [outAreas_append] at inv
  have hself (p : ℕ) (z : ℤ) : g'.Got ⟨c, p⟩ z ↔
      (p, z) ∈ e.foldl ImEvent.track (outAreas (ev c)) := by
    show (p, z) ∈ outAreas (Function.update ev c (ev c ++ e) c) ↔ _
    rw [Function.update_self, outAreas_append]
  rcases ans with ⟨hnone, htrack⟩ | ⟨p, hsome, htrack⟩ <;> rw [htrack] at inv <;>
    simp only [htrack] at hself
  · refine ⟨fun a z ha => ?_, fun p hp => ?_⟩
    · by_cases hc : a.imacb = c
      · subst hc
        exact (hself a.ptr z).mpr ha
      · exact (got_update_of_ne hc).mpr ha
    · rw [hnone] at hp
      cases hp
  · refine ⟨fun a z ha => ?_, fun p' hp => ?_⟩
    · by_cases hc : a.imacb = c
      · subst hc
        exact (hself a.ptr z).mpr (List.mem_cons_of_mem _ ha)
      · exact (got_update_of_ne hc).mpr ha
    · rw [hsome] at hp
      cases hp
      refine ⟨(hself p size).mpr List.mem_cons_self, fun ⟨z, hz⟩ => inv.got_new ?_⟩
      exact List.mem_map.mpr ⟨(p, z), hz, rfl⟩

/-! ## What is known of calls and tasks -/

theorem AllocatedFor.mono (h : AllocatedFor cfg g pk sstack stack)
    (hkept : ∀ a ∈ allocated pk sstack stack, ∀ z, g.Got a z → g'.Got a z) :
    AllocatedFor cfg g' pk sstack stack := by
  refine ⟨hkept _ List.mem_cons_self _ h.sys, fun p hp => hkept _ ?_ _ (h.user p hp), h.iff⟩
  refine List.mem_cons_of_mem _ (List.mem_map.mpr ⟨p, ?_, rfl⟩)
  exact Option.mem_toList.mpr hp

theorem StageOk.mono (h : StageOk cfg g pk stage)
    (hkept : ∀ a ∈ (TskCall.creTsk pk stage).areas, ∀ z, g.Got a z → g'.Got a z) :
    StageOk cfg g' pk stage := by
  cases stage with
  | sstack => trivial
  | sstackPages => trivial
  | stack p => exact ⟨hkept _ List.mem_cons_self _ h.1, h.2⟩
  | stackPages p => exact ⟨hkept _ List.mem_cons_self _ h.1, h.2⟩
  | enter p q => exact AllocatedFor.mono h hkept

theorem TaskOk.mono {tcb : Option StackTcb} (h : TaskOk cfg g tcb pk areas)
    (hkept : ∀ a ∈ areas, ∀ z, g.Got a z → g'.Got a z) : TaskOk cfg g' tcb pk areas := by
  obtain ⟨sstack, stack, rfl, hall⟩ := h.got
  exact ⟨h.packet, ⟨sstack, stack, rfl, hall.mono hkept⟩, h.freed⟩

/-- The areas `error_exit` frees are those that were allocated. -/
theorem AllocatedFor.errorAreas_eq (h : AllocatedFor cfg g pk sstack stack) :
    errorAreas pk sstack stack = allocated pk sstack stack := by
  have hiff := h.iff
  unfold errorAreas allocated
  cases stack with
  | none =>
    rw [if_neg (mt hiff.mpr (by simp))]
    rfl
  | some p =>
    rw [if_pos (hiff.mp rfl)]
    rfl

theorem AllocatedFor.delAreas_eq (h : AllocatedFor cfg g pk sstack stack)
    (hlt : ∀ a ∈ allocated pk sstack stack, a.ptr < 2 ^ 32) :
    delAreas cfg (newStackTcb cfg pk sstack stack) = allocated pk sstack stack := by
  have hiff := h.iff
  have hback (p : ℕ) (hp : p < 2 ^ 32) (sz : BitVec 32) :
      (BitVec.ofNat 32 p + sz - sz).toNat = p := by
    rw [BitVec.add_sub_cancel, BitVec.toNat_ofNat, Nat.mod_eq_of_lt hp]
  have hsys := hlt _ List.mem_cons_self
  unfold delAreas newStackTcb allocated
  dsimp only
  rw [BitVec.sub_add_cancel, hback sstack hsys]
  cases stack with
  | none =>
    rw [if_neg (mt hiff.mpr (by simp))]
    rfl
  | some p =>
    have hpos := hiff.mp rfl
    have hp := hlt ⟨SelIMACB pk.tskatr, p⟩ (List.mem_cons_of_mem _ List.mem_cons_self)
    rw [if_pos hpos, if_pos hpos, Option.getD_some, hback p hp]
    rfl

end SmpTKernel
