import SmpTKernel.Lib.Transversal
import SmpTKernel.ReadyQueueInv
import SmpTKernel.ReadyQueueTop

/-!
# The selection is the greedy one

`mayRunOn` says where a task may be put. The specification `greedy` goes through the tasks in order
of precedence and keeps one when the tasks kept so far and the new one can be given distinct
processors. The table `hist` of the code lists, for every non-empty set of kept tasks that do not
fit everywhere, the processors the set needs and its size (`encode`); testing it is Hall's condition
for the new task, so the loop keeps the same tasks (`selectTop_greedy`).
-/

namespace SmpTKernel

open LinkRing Transversal

variable {numProc : ℕ}

/-! ## Bit masks as sets of processors -/

/-- The processors of a mask. -/
def procs (numProc bits : ℕ) : Finset ℕ := (Finset.range numProc).filter fun i => hasBit bits i

theorem hasBit_eq_testBit (bits i : ℕ) : hasBit bits i = bits.testBit i := by
  unfold hasBit
  rw [Nat.one_shiftLeft, Nat.and_two_pow]
  cases bits.testBit i <;> simp

theorem mem_procs {bits i : ℕ} : i ∈ procs numProc bits ↔ i < numProc ∧ bits.testBit i = true := by
  unfold procs
  rw [Finset.mem_filter, Finset.mem_range, hasBit_eq_testBit]

theorem procs_or (a b : ℕ) : procs numProc (a ||| b) = procs numProc a ∪ procs numProc b := by
  ext i
  simp only [Finset.mem_union, mem_procs, Nat.testBit_or, Bool.or_eq_true]
  tauto

theorem procs_zero : procs numProc 0 = ∅ := by
  ext i
  simp [mem_procs]

theorem procs_eq_empty_iff {b : ℕ} (hb : b < 2 ^ numProc) : procs numProc b = ∅ ↔ b = 0 := by
  constructor
  · intro h
    refine Nat.eq_of_testBit_eq fun i => ?_
    rw [Nat.zero_testBit]
    by_contra c
    have hbit : b.testBit i = true := by simpa using c
    have hi : i < numProc := by
      by_contra hi
      rw [Nat.testBit_lt_two_pow (lt_of_lt_of_le hb (Nat.pow_le_pow_right (by norm_num)
        (not_lt.mp hi)))] at hbit
      exact Bool.false_ne_true hbit
    have := mem_procs.mpr ⟨hi, hbit⟩
    rw [h] at this
    exact Finset.notMem_empty i this
  · rintro rfl
    exact procs_zero

theorem ALL_CORE_BIT_eq (hn : numProc ≤ MAX_PROC) : ALL_CORE_BIT numProc = 2 ^ numProc - 1 := by
  interval_cases numProc <;> rfl

theorem le_ALL_CORE_BIT (hn : numProc ≤ MAX_PROC) {b : ℕ} :
    b ≤ ALL_CORE_BIT numProc ↔ b < 2 ^ numProc := by
  rw [ALL_CORE_BIT_eq hn]
  have := Nat.two_pow_pos numProc
  omega

theorem testBit_ALL_CORE_BIT (hn : numProc ≤ MAX_PROC) (i : ℕ) :
    (ALL_CORE_BIT numProc).testBit i = decide (i < numProc) := by
  rw [ALL_CORE_BIT_eq hn, Nat.testBit_two_pow_sub_one]

theorem procs_ALL_CORE_BIT (hn : numProc ≤ MAX_PROC) :
    procs numProc (ALL_CORE_BIT numProc) = Finset.range numProc := by
  ext i
  rw [mem_procs, testBit_ALL_CORE_BIT hn, Finset.mem_range]
  simp

theorem cntBits_eq_card (hn : numProc ≤ MAX_PROC) {b : ℕ} (hb : b < 2 ^ numProc) :
    cntBits numProc b = (procs numProc b).card := by
  have key : ∀ n ≤ 4, ∀ b < 2 ^ n, cntBits n b = (procs n b).card := by decide
  exact key numProc hn b hb

theorem cntBits2_eq_card (b : ℕ) : cntBits2 numProc b = (procs numProc b).card := by
  unfold cntBits2 procs
  rw [← List.toFinset_range, ← List.toFinset_filter,
    List.toFinset_card_of_nodup ((List.nodup_range).filter _)]

/-! ## Where a task may be put -/

variable {c : Core} {u : Cpus}

/-- The processors that run `t` and do not dispatch. -/
def pinnedOn (numProc : ℕ) (u : Cpus) (t : Tsk) : Finset ℕ :=
  (Finset.range numProc).filter fun i =>
    u.ctxtsk i = some t ∧ u.dispatch_disabled i ≥ DDS_DISABLE

/-- The processors `t` is permitted on: its own one if that does not dispatch, else those of its
mask that dispatch. -/
def mayRunOn (numProc : ℕ) (c : Core) (u : Cpus) (t : Tsk) : Finset ℕ :=
  if (pinnedOn numProc u t).Nonempty then pinnedOn numProc u t
  else (Finset.range numProc).filter fun i =>
    hasBit (askedBits numProc c t) i ∧ u.dispatch_disabled i < DDS_DISABLE

/-- The task asks for some of the processors there are. -/
def MaskOk (numProc : ℕ) (c : Core) (t : Tsk) : Prop :=
  askedBits numProc c t ≠ 0 ∧ askedBits numProc c t ≤ ALL_CORE_BIT numProc

/-- When a processor that does not dispatch runs the task, the task may run there and no other
processor runs it. -/
def CtxOk (numProc : ℕ) (c : Core) (u : Cpus) (t : Tsk) : Prop :=
  ∀ i < numProc, u.ctxtsk i = some t → u.dispatch_disabled i ≥ DDS_DISABLE →
    hasBit (askedBits numProc c t) i ∧ ∀ i' < numProc, u.ctxtsk i' = some t → i' = i

theorem mem_pinnedOn {t : Tsk} {i : ℕ} : i ∈ pinnedOn numProc u t ↔
    i < numProc ∧ u.ctxtsk i = some t ∧ u.dispatch_disabled i ≥ DDS_DISABLE := by
  unfold pinnedOn
  rw [Finset.mem_filter, Finset.mem_range]

theorem pinnedOn_eq {t : Tsk} {i : ℕ} (hctx : CtxOk numProc c u t) (hi : i ∈ pinnedOn numProc u t) :
    pinnedOn numProc u t = {i} := by
  obtain ⟨hlt, ht, hd⟩ := mem_pinnedOn.mp hi
  ext i'
  rw [Finset.mem_singleton]
  constructor
  · intro h
    obtain ⟨hlt', ht', -⟩ := mem_pinnedOn.mp h
    exact (hctx i hlt ht hd).2 i' hlt' ht'
  · rintro rfl
    exact hi

theorem mayRunOn_subset (t : Tsk) : mayRunOn numProc c u t ⊆ Finset.range numProc := by
  unfold mayRunOn pinnedOn
  split_ifs <;> exact Finset.filter_subset _ _

theorem testBit_ddsMask (hn : numProc ≤ MAX_PROC) {i : ℕ} (hi : i < numProc) :
    (ddsMask numProc u).testBit i = decide (u.dispatch_disabled i < DDS_DISABLE) := by
  have fold : ∀ (l : List ℕ) (m : ℕ), (l.foldl (fun m j =>
      if u.dispatch_disabled j ≥ DDS_DISABLE then m ||| (1 <<< j) else m) m).testBit i =
        (m.testBit i || decide (i ∈ l ∧ u.dispatch_disabled i ≥ DDS_DISABLE)) := by
    intro l
    induction l with
    | nil => intro m; simp
    | cons j l ih =>
      intro m
      rw [List.foldl_cons, ih]
      by_cases hij : i = j
      · subst hij
        by_cases hd : u.dispatch_disabled i ≥ DDS_DISABLE
        · simp [hd, Nat.testBit_or, Nat.testBit_shiftLeft]
        · simp [hd]
      · by_cases hd : u.dispatch_disabled j ≥ DDS_DISABLE
        · have : (1 <<< j).testBit i = false := by
            rw [Nat.one_shiftLeft, Nat.testBit_two_pow_of_ne (Ne.symm hij)]
          simp [hd, Nat.testBit_or, this, hij]
        · simp [hd, hij]
  unfold ddsMask
  rw [Nat.testBit_xor, fold, show (0xFFFFFFFF : ℕ) = 2 ^ 32 - 1 from rfl,
    Nat.testBit_two_pow_sub_one, Nat.zero_testBit, Bool.false_or]
  have h32 : i < 32 := lt_of_lt_of_le hi (hn.trans (by norm_num))
  by_cases hd : u.dispatch_disabled i < DDS_DISABLE
  · simp [hd, h32]
  · simp [hd, h32, hi, not_lt.mp hd]

theorem placeBits_cases (numProc : ℕ) (c : Core) (u : Cpus) (t : Tsk) :
    (∃ i ∈ pinnedOn numProc u t, placeBits numProc c u t = 1 <<< i) ∨
      pinnedOn numProc u t = ∅ ∧
        placeBits numProc c u t = askedBits numProc c t &&& ddsMask numProc u := by
  unfold placeBits
  cases h : (List.range numProc).find? fun i =>
      decide (some t = u.ctxtsk i ∧ u.dispatch_disabled i ≥ DDS_DISABLE) with
  | some i =>
    refine Or.inl ⟨i, ?_, rfl⟩
    have hi := List.find?_some h
    have hm := List.mem_range.mp (List.mem_of_find?_eq_some h)
    simp only [decide_eq_true_eq] at hi
    exact mem_pinnedOn.mpr ⟨hm, hi.1.symm, hi.2⟩
  | none =>
    refine Or.inr ⟨Finset.eq_empty_of_forall_notMem fun i hi => ?_, rfl⟩
    obtain ⟨hlt, ht, hd⟩ := mem_pinnedOn.mp hi
    have := List.find?_eq_none.mp h i (List.mem_range.mpr hlt)
    simp [ht, hd] at this

theorem placeBits_lt (hn : numProc ≤ MAX_PROC) {t : Tsk} (hm : MaskOk numProc c t) :
    placeBits numProc c u t < 2 ^ numProc := by
  rcases placeBits_cases numProc c u t with ⟨i, hi, h⟩ | ⟨-, h⟩
  · rw [h, Nat.one_shiftLeft]
    exact Nat.pow_lt_pow_right (by norm_num) (mem_pinnedOn.mp hi).1
  · rw [h]
    exact lt_of_le_of_lt Nat.and_le_left ((le_ALL_CORE_BIT hn).mp hm.2)

theorem procs_placeBits (hn : numProc ≤ MAX_PROC) {t : Tsk} (hctx : CtxOk numProc c u t) :
    procs numProc (placeBits numProc c u t) = mayRunOn numProc c u t := by
  rcases placeBits_cases numProc c u t with ⟨i, hi, h⟩ | ⟨he, h⟩
  · unfold mayRunOn
    rw [if_pos ⟨i, hi⟩, pinnedOn_eq hctx hi, h, Nat.one_shiftLeft]
    ext k
    rw [mem_procs, Finset.mem_singleton, Nat.testBit_two_pow, decide_eq_true_eq]
    constructor
    · exact fun hk => hk.2.symm
    · rintro rfl
      exact ⟨(mem_pinnedOn.mp hi).1, rfl⟩
  · unfold mayRunOn
    rw [if_neg (by simp [he]), h]
    ext k
    rw [mem_procs, Finset.mem_filter, Finset.mem_range, Nat.testBit_and, hasBit_eq_testBit]
    refine and_congr_right fun hk => ?_
    rw [testBit_ddsMask hn hk]
    simp

theorem mayRunOn_of_placeBits_all (hn : numProc ≤ MAX_PROC) {t : Tsk} (hctx : CtxOk numProc c u t)
    (h : placeBits numProc c u t = ALL_CORE_BIT numProc) :
    mayRunOn numProc c u t = Finset.range numProc := by
  rw [← procs_placeBits hn hctx, h, procs_ALL_CORE_BIT hn]

theorem placeBits_eq_zero_iff (hn : numProc ≤ MAX_PROC) {t : Tsk} (hm : MaskOk numProc c t)
    (hctx : CtxOk numProc c u t) : placeBits numProc c u t = 0 ↔ mayRunOn numProc c u t = ∅ := by
  rw [← procs_placeBits hn hctx, procs_eq_empty_iff (placeBits_lt hn hm)]

/-! ## The table of needs -/

/-- The processors a set of tasks needs, as a mask. -/
def needs (numProc : ℕ) (c : Core) (u : Cpus) (S : List Tsk) : ℕ :=
  S.foldl (fun b t => b ||| placeBits numProc c u t) 0

/-- The entry of a set of tasks: needs in the lower 16 bits, size in the upper. -/
def encode (numProc : ℕ) (c : Core) (u : Cpus) (S : List Tsk) : ℕ :=
  needs numProc c u S + S.length * 2 ^ 16

theorem needs_concat (S : List Tsk) (t : Tsk) :
    needs numProc c u (S ++ [t]) = needs numProc c u S ||| placeBits numProc c u t := by
  unfold needs
  rw [List.foldl_append]
  rfl

theorem needs_lt (hn : numProc ≤ MAX_PROC) {S : List Tsk} (hm : ∀ t ∈ S, MaskOk numProc c t) :
    needs numProc c u S < 2 ^ numProc := by
  induction S using List.reverseRecOn with
  | nil => exact Nat.two_pow_pos numProc
  | append_singleton S t ih =>
    rw [needs_concat]
    exact Nat.or_lt_two_pow (ih fun x hx => hm x (by simp [hx])) (placeBits_lt hn (hm t (by simp)))

theorem procs_needs (hn : numProc ≤ MAX_PROC) {S : List Tsk} (hctx : ∀ t ∈ S, CtxOk numProc c u t) :
    procs numProc (needs numProc c u S) = S.toFinset.biUnion (mayRunOn numProc c u) := by
  induction S using List.reverseRecOn with
  | nil => exact procs_zero
  | append_singleton S t ih =>
    rw [needs_concat, procs_or, ih fun x hx => hctx x (by simp [hx]),
      procs_placeBits hn (hctx t (by simp))]
    ext x
    simp only [Finset.mem_union, Finset.mem_biUnion, List.mem_toFinset, List.mem_append,
      List.mem_singleton]
    constructor
    · rintro (⟨y, hy, hx⟩ | hx)
      · exact ⟨y, Or.inl hy, hx⟩
      · exact ⟨t, Or.inr rfl, hx⟩
    · rintro ⟨y, hy | rfl, hx⟩
      · exact Or.inl ⟨y, hy, hx⟩
      · exact Or.inr hx

/-- Masks are small next to the upper half of a table entry. -/
theorem lt_two_pow_16 (hn : numProc ≤ MAX_PROC) {b : ℕ} (hb : b < 2 ^ numProc) : b < 2 ^ 16 :=
  lt_of_lt_of_le hb (Nat.pow_le_pow_right (by norm_num) (hn.trans (by norm_num)))

theorem orBitNum_encode (hn : numProc ≤ MAX_PROC) {S : List Tsk} {t : Tsk}
    (hm : ∀ t ∈ S, MaskOk numProc c t) (ht : MaskOk numProc c t) :
    orBitNum (encode numProc c u S) (placeBits numProc c u t) = encode numProc c u (S ++ [t]) := by
  have h₁ := lt_two_pow_16 hn (needs_lt (u := u) hn hm)
  have h₂ := lt_two_pow_16 hn (placeBits_lt (u := u) hn ht)
  have h₃ : needs numProc c u S ||| placeBits numProc c u t < 2 ^ 16 := Nat.or_lt_two_pow h₁ h₂
  unfold orBitNum encode
  rw [needs_concat, add_comm (needs _ _ _ _), mul_comm, Nat.two_pow_add_eq_or_of_lt h₁,
    Nat.or_assoc, ← Nat.two_pow_add_eq_or_of_lt h₃, List.length_append, List.length_singleton,
    Nat.one_shiftLeft]
  omega

theorem histAdd_first (hn : numProc ≤ MAX_PROC) {t : Tsk} (ht : MaskOk numProc c t) :
    placeBits numProc c u t ||| (1 <<< 16) = encode numProc c u [t] := by
  have h₂ := lt_two_pow_16 hn (placeBits_lt (u := u) hn ht)
  have := Nat.two_pow_add_eq_or_of_lt h₂ 1
  unfold encode needs
  rw [Nat.or_comm, Nat.one_shiftLeft]
  rw [mul_one] at this
  rw [← this]
  simp [add_comm]

theorem orBitNum_needs (hn : numProc ≤ MAX_PROC) {S : List Tsk} (hm : ∀ t ∈ S, MaskOk numProc c t) :
    encode numProc c u S &&& 0xFFFF = needs numProc c u S ∧
      encode numProc c u S >>> 16 = S.length := by
  have h := lt_two_pow_16 hn (needs_lt (u := u) hn hm)
  unfold encode
  constructor
  · rw [show (0xFFFF : ℕ) = 2 ^ 16 - 1 from rfl, Nat.and_two_pow_sub_one_eq_mod]
    omega
  · rw [Nat.shiftRight_eq_div_pow]
    omega

/-- The kept tasks that do not fit everywhere. -/
def narrow (numProc : ℕ) (c : Core) (u : Cpus) (chosen : List Tsk) : List Tsk :=
  chosen.filter fun t => placeBits numProc c u t ≠ ALL_CORE_BIT numProc

/-- `hist` lists the non-empty sets of the kept tasks that do not fit everywhere. -/
def HistOk (numProc : ℕ) (c : Core) (u : Cpus) (chosen : List Tsk) (hist : List ℕ) : Prop :=
  ∀ e, e ∈ hist ↔ ∃ S, S.Sublist (narrow numProc c u chosen) ∧ S ≠ [] ∧ e = encode numProc c u S

theorem histOk_nil : HistOk numProc c u [] [] := by
  intro e
  simp [narrow]

theorem HistOk.add (hn : numProc ≤ MAX_PROC) {chosen : List Tsk} {hist : List ℕ} {t : Tsk}
    (h : HistOk numProc c u chosen hist) (hm : ∀ x ∈ chosen, MaskOk numProc c x)
    (ht : MaskOk numProc c t) (hb : placeBits numProc c u t ≠ ALL_CORE_BIT numProc) :
    HistOk numProc c u (chosen ++ [t]) (histAdd hist (placeBits numProc c u t)) := by
  have hnar : narrow numProc c u (chosen ++ [t]) = narrow numProc c u chosen ++ [t] := by
    unfold narrow
    rw [List.filter_append, List.filter_singleton]
    simp [hb]
  have hsub : ∀ {S : List Tsk}, S.Sublist (narrow numProc c u chosen) →
      ∀ x ∈ S, MaskOk numProc c x := fun hS x hx =>
    hm x (List.mem_of_mem_filter (hS.subset hx))
  intro e
  unfold histAdd
  rw [hnar]
  simp only [List.mem_append, List.mem_map, List.mem_singleton]
  constructor
  · rintro ((he | ⟨e', he', rfl⟩) | rfl)
    · obtain ⟨S, hS, hne, rfl⟩ := (h e).mp he
      exact ⟨S, hS.trans (List.sublist_append_left _ _), hne, rfl⟩
    · obtain ⟨S, hS, -, rfl⟩ := (h e').mp he'
      exact ⟨S ++ [t], hS.append (List.Sublist.refl _), by simp, orBitNum_encode hn (hsub hS) ht⟩
    · exact ⟨[t], List.sublist_append_right _ _, by simp, histAdd_first hn ht⟩
  · rintro ⟨S, hS, hne, rfl⟩
    obtain ⟨S₁, S₂, rfl, hS₁, hS₂⟩ := List.sublist_append_iff.mp hS
    rcases List.sublist_singleton.mp hS₂ with rfl | rfl
    · rw [List.append_nil] at hne ⊢
      exact Or.inl (Or.inl ((h _).mpr ⟨S₁, hS₁, hne, rfl⟩))
    · by_cases hS₁n : S₁ = []
      · subst hS₁n
        exact Or.inr (histAdd_first hn ht).symm
      · exact Or.inl (Or.inr ⟨_, (h _).mpr ⟨S₁, hS₁, hS₁n, rfl⟩, orBitNum_encode hn (hsub hS₁) ht⟩)

theorem HistOk.wide {chosen : List Tsk} {hist : List ℕ} {t : Tsk}
    (h : HistOk numProc c u chosen hist)
    (hb : placeBits numProc c u t = ALL_CORE_BIT numProc) :
    HistOk numProc c u (chosen ++ [t]) hist := by
  have hnar : narrow numProc c u (chosen ++ [t]) = narrow numProc c u chosen := by
    unfold narrow
    rw [List.filter_append, List.filter_singleton]
    simp [hb]
  intro e
  rw [h e, hnar]

/-- The check of the code, in terms of sets. -/
theorem overbooked_iff (hn : numProc ≤ MAX_PROC) {chosen : List Tsk} {hist : List ℕ} {t : Tsk}
    (h : HistOk numProc c u chosen hist) (nd : chosen.Nodup)
    (hm : ∀ x ∈ chosen, MaskOk numProc c x) (ht : MaskOk numProc c t)
    (hctx : ∀ x ∈ chosen, CtxOk numProc c u x) (hctxt : CtxOk numProc c u t) :
    overbooked numProc hist (placeBits numProc c u t) = true ↔
      ∃ S ⊆ (narrow numProc c u chosen).toFinset, S.Nonempty ∧
        (mayRunOn numProc c u t ∪ S.biUnion (mayRunOn numProc c u)).card < S.card + 1 := by
  have entry : ∀ {S : List Tsk}, S.Sublist (narrow numProc c u chosen) →
      (cntBits numProc (orBitNum (encode numProc c u S) (placeBits numProc c u t) &&& 0xFFFF) <
          orBitNum (encode numProc c u S) (placeBits numProc c u t) >>> 16 ↔
        (mayRunOn numProc c u t ∪ S.toFinset.biUnion (mayRunOn numProc c u)).card <
          S.toFinset.card + 1) := by
    intro S hS
    have hSc : ∀ x ∈ S, x ∈ chosen := fun x hx => List.mem_of_mem_filter (hS.subset hx)
    have hmS : ∀ x ∈ S ++ [t], MaskOk numProc c x := by
      intro x hx
      rcases List.mem_append.mp hx with hx | hx
      · exact hm x (hSc x hx)
      · rw [List.mem_singleton.mp hx]; exact ht
    obtain ⟨e₁, e₂⟩ := orBitNum_needs (u := u) hn hmS
    rw [orBitNum_encode hn (fun x hx => hm x (hSc x hx)) ht, e₁, e₂, cntBits_eq_card hn
      (needs_lt hn hmS), needs_concat, procs_or, procs_needs hn fun x hx => hctx x (hSc x hx),
      procs_placeBits hn hctxt, Finset.union_comm, List.length_append, List.length_singleton,
      List.toFinset_card_of_nodup ((nd.filter _).sublist hS)]
  unfold overbooked
  rw [List.any_eq_true]
  constructor
  · rintro ⟨e, he, hlt⟩
    obtain ⟨S, hS, hne, rfl⟩ := (h e).mp he
    refine ⟨S.toFinset, fun x hx => ?_, List.toFinset_nonempty_iff S |>.mpr hne,
      (entry hS).mp (of_decide_eq_true hlt)⟩
    exact List.mem_toFinset.mpr (hS.subset (List.mem_toFinset.mp hx))
  · rintro ⟨S, hS, hne, hlt⟩
    have hsub : ((narrow numProc c u chosen).filter (· ∈ S)).Sublist (narrow numProc c u chosen) :=
      List.filter_sublist
    have hS' : ((narrow numProc c u chosen).filter (· ∈ S)).toFinset = S := by
      ext x
      rw [List.mem_toFinset, List.mem_filter, decide_eq_true_eq]
      exact ⟨fun hx => hx.2, fun hx => ⟨List.mem_toFinset.mp (hS hx), hx⟩⟩
    refine ⟨_, (h _).mpr ⟨_, hsub, fun e => ?_, rfl⟩, decide_eq_true ((entry hsub).mpr ?_)⟩
    · rw [e, List.toFinset_nil] at hS'
      exact hne.ne_empty hS'.symm
    · rw [hS']
      exact hlt

/-- **The check is Hall's condition.** A task passes the two checks of the loop exactly when it can
be placed together with the tasks kept so far. -/
theorem keep_iff (hn : numProc ≤ MAX_PROC) {chosen : List Tsk} {hist : List ℕ} {t : Tsk}
    (h : HistOk numProc c u chosen hist) (nd : (chosen ++ [t]).Nodup)
    (hlen : chosen.length < numProc) (hmatch : Matchable (mayRunOn numProc c u) chosen.toFinset)
    (hm : ∀ x ∈ chosen ++ [t], MaskOk numProc c x)
    (hctx : ∀ x ∈ chosen ++ [t], CtxOk numProc c u x) :
    (placeBits numProc c u t ≠ 0 ∧ ¬(placeBits numProc c u t ≠ ALL_CORE_BIT numProc ∧
        overbooked numProc hist (placeBits numProc c u t) = true)) ↔
      Matchable (mayRunOn numProc c u) (insert t chosen.toFinset) := by
  obtain ⟨ndc, -, hdisj⟩ := List.nodup_append.mp nd
  have htc : t ∉ chosen.toFinset := fun c =>
    hdisj t (List.mem_toFinset.mp c) t (List.mem_singleton_self t) rfl
  have hmt := hm t (by simp)
  have hct := hctx t (by simp)
  have hmc : ∀ x ∈ chosen, MaskOk numProc c x := fun x hx => hm x (by simp [hx])
  have hcc : ∀ x ∈ chosen, CtxOk numProc c u x := fun x hx => hctx x (by simp [hx])
  have hcard : ∀ {S : Finset Tsk}, S ⊆ chosen.toFinset → S.card + 1 ≤ numProc := fun hS => by
    have := (Finset.card_le_card hS).trans (List.toFinset_card_le chosen)
    omega
  -- a task that fits everywhere makes any set roomy enough
  have wide : ∀ {S : Finset Tsk} {x : Tsk}, S ⊆ chosen.toFinset → x ∈ insert t S →
      mayRunOn numProc c u x = Finset.range numProc →
      S.card + 1 ≤ (mayRunOn numProc c u t ∪ S.biUnion (mayRunOn numProc c u)).card := by
    intro S x hS hx hxw
    refine (hcard hS).trans ?_
    rw [← Finset.biUnion_insert]
    have := Finset.card_le_card (Finset.subset_biUnion_of_mem (mayRunOn numProc c u) hx)
    rwa [hxw, Finset.card_range] at this
  rw [matchable_insert_iff hmatch htc]
  constructor
  · rintro ⟨h0, hover⟩ S hS
    by_cases hall : ∃ x ∈ insert t S, placeBits numProc c u x = ALL_CORE_BIT numProc
    · obtain ⟨x, hx, hxa⟩ := hall
      have hxc : CtxOk numProc c u x := by
        rcases Finset.mem_insert.mp hx with rfl | hx
        · exact hct
        · exact hcc x (List.mem_toFinset.mp (hS hx))
      exact wide hS hx (mayRunOn_of_placeBits_all hn hxc hxa)
    · have hnarrow : ∀ x ∈ insert t S, placeBits numProc c u x ≠ ALL_CORE_BIT numProc :=
        fun x hx hxa => hall ⟨x, hx, hxa⟩
      rcases S.eq_empty_or_nonempty with rfl | hne
      · rw [Finset.biUnion_empty, Finset.union_empty, Finset.card_empty, zero_add]
        refine Finset.card_pos.mpr (Finset.nonempty_iff_ne_empty.mpr fun e => h0 ?_)
        exact (placeBits_eq_zero_iff hn hmt hct).mpr e
      · by_contra hlt
        refine hover ⟨hnarrow t (Finset.mem_insert_self t S),
          (overbooked_iff hn h ndc hmc hmt hcc hct).mpr ⟨S, fun x hx => ?_, hne, by omega⟩⟩
        refine List.mem_toFinset.mpr (List.mem_filter.mpr ⟨List.mem_toFinset.mp (hS hx), ?_⟩)
        exact decide_eq_true (hnarrow x (Finset.mem_insert_of_mem hx))
  · intro hall
    refine ⟨fun h0 => ?_, fun hover => ?_⟩
    · have := hall ∅ (Finset.empty_subset _)
      rw [(placeBits_eq_zero_iff hn hmt hct).mp h0] at this
      simp at this
    · obtain ⟨S, hS, -, hlt⟩ := (overbooked_iff hn h ndc hmc hmt hcc hct).mp hover.2
      have := hall S fun x hx => List.mem_toFinset.mpr
        (List.mem_of_mem_filter (List.mem_toFinset.mp (hS hx)))
      omega

/-! ## The greedy selection -/

open Classical in
/-- Go through the tasks in order and keep each one that can be placed together with those kept so
far, up to `k` of them. -/
noncomputable def greedy (N : Tsk → Finset ℕ) (k : ℕ) (chosen : List Tsk) : List Tsk → List Tsk
  | [] => chosen
  | t :: l =>
    if chosen.length = k then chosen
    else if Matchable N (insert t chosen.toFinset) then greedy N k (chosen ++ [t]) l
    else greedy N k chosen l

theorem greedy_full {N : Tsk → Finset ℕ} {k : ℕ} {chosen : List Tsk} (h : chosen.length = k)
    (l : List Tsk) : greedy N k chosen l = chosen := by
  cases l with
  | nil => rfl
  | cons t l => unfold greedy; rw [if_pos h]

/-- What the arrays say about the kept tasks. -/
structure Kept (numProc : ℕ) (c : Core) (u : Cpus) (s : Selection) (chosen : List Tsk) : Prop where
  assign_num : s.assign_num = chosen.length
  top_bit : ∀ k, s.top_bit k = (chosen[k]?.map (placeBits numProc c u)).getD 0
  bit_cnt : ∀ k < numProc, s.bit_cnt k = (chosen.filter (k ∈ mayRunOn numProc c u ·)).length
  matchable : Matchable (mayRunOn numProc c u) chosen.toFinset

/-- The selection loop after it kept `chosen`, with the tasks still to come: `top_tcb[]` shows the
first of both. -/
structure Window (numProc : ℕ) (L : List Tsk) (s : Selection) (chosen rest : List Tsk) : Prop where
  split : ∃ pre, L = pre ++ rest ∧ chosen.Sublist pre
  length_le : chosen.length ≤ numProc
  top : ∀ k < numProc, s.top_tcb k = (chosen ++ rest)[k]?

/-- What the selection loop knows by then. -/
structure SelInv (numProc : ℕ) (c : Core) (u : Cpus) (L : List Tsk) (s : Selection)
    (chosen rest : List Tsk) : Prop
    extends Kept numProc c u s chosen, Window numProc L s chosen rest where
  hist : chosen.length < numProc → HistOk numProc c u chosen s.hist

/-- The result of the selection loop. -/
structure Selected (numProc : ℕ) (c : Core) (u : Cpus) (L : List Tsk) (s : Selection)
    (chosen : List Tsk) : Prop extends Kept numProc c u s chosen where
  sublist : chosen.Sublist L
  length_le : chosen.length ≤ numProc
  top : ∀ k < numProc, s.top_tcb k = chosen[k]?

variable {L chosen rest : List Tsk} {s : Selection} {live : QHead → Prop} {Q : QHead → List Tsk}

theorem SelInv.nodup (h : SelInv numProc c u L s chosen rest) (nd : L.Nodup) :
    (chosen ++ rest).Nodup := by
  obtain ⟨pre, rfl, hs⟩ := h.split
  exact nd.sublist (hs.append (List.Sublist.refl rest))

theorem SelInv.mem (h : SelInv numProc c u L s chosen rest) {t : Tsk} (ht : t ∈ chosen ++ rest) :
    t ∈ L := by
  obtain ⟨pre, rfl, hs⟩ := h.split
  exact (hs.append (List.Sublist.refl rest)).subset ht

/-- The loop ends when every place is taken or no task is left. -/
theorem SelInv.selected (h : SelInv numProc c u L s chosen rest)
    (hend : chosen.length = numProc ∨ rest = []) : Selected numProc c u L s chosen := by
  obtain ⟨pre, hL, hs⟩ := h.split
  refine ⟨h.toKept, hL ▸ hs.trans (List.sublist_append_left pre rest), h.length_le,
    fun k hk => ?_⟩
  rw [h.top k hk]
  rcases hend with he | rfl
  · exact List.getElem?_append_left (by omega)
  · rw [List.append_nil]

/-- Dropping the task at the first open place. -/
theorem Window.drop (r : ReadyLinks live Q c) (hm : Marks c.ready_queue.bitmap Q) {t : Tsk}
    (h : Window numProc (ordered (rdyQ Q)) s chosen (t :: rest)) (hlt : chosen.length < numProc) :
    Window numProc (ordered (rdyQ Q))
      { s with top_tcb := shiftTop numProc c s.top_tcb chosen.length } chosen rest := by
  obtain ⟨pre, hL, hs⟩ := h.split
  refine ⟨⟨pre ++ [t], by simp [hL], hs.trans (List.sublist_append_left pre [t])⟩, h.length_le, ?_⟩
  -- the place a task comes from, and the last place
  have hold : ∀ k < numProc - 1, shiftDown (numProc - 1 - chosen.length) chosen.length s.top_tcb k =
      (chosen ++ rest)[k]? := by
    intro k hk
    rw [shiftDown_apply]
    by_cases hkc : k < chosen.length
    · rw [if_neg (by omega), h.top k (by omega), List.getElem?_append_left hkc,
        List.getElem?_append_left hkc]
    · rw [if_pos (by omega), h.top _ (by omega), List.getElem?_append_right (by omega),
        List.getElem?_append_right (by omega), Nat.sub_add_comm (by omega), List.getElem?_cons_succ]
  have hlast : shiftDown (numProc - 1 - chosen.length) chosen.length s.top_tcb (numProc - 1) =
      (t :: rest)[numProc - 1 - chosen.length]? := by
    rw [shiftDown_apply, if_neg (by omega), h.top _ (by omega), List.getElem?_append_right
      (by omega)]
  intro k hk
  show shiftTop numProc c s.top_tcb chosen.length k = _
  unfold shiftTop
  rcases hu : (t :: rest)[numProc - 1 - chosen.length]? with _ | v
  · rw [hlast, hu]
    show shiftDown _ _ _ k = _
    by_cases hk' : k < numProc - 1
    · exact hold k hk'
    · have hkl : k = numProc - 1 := by omega
      have hlen : (t :: rest).length ≤ numProc - 1 - chosen.length :=
        List.getElem?_eq_none_iff.mp hu
      simp only [List.length_cons] at hlen
      rw [hkl, hlast, hu, List.getElem?_eq_none]
      simp only [List.length_append]
      omega
  · rw [hlast, hu]
    show Function.update _ _ _ k = _
    by_cases hk' : k < numProc - 1
    · rw [Function.update_of_ne (by omega), hold k hk']
    · have hkl : k = numProc - 1 := by omega
      have hv : (ordered (rdyQ Q))[pre.length + (numProc - 1 - chosen.length)]? = some v := by
        rw [hL, List.getElem?_append_right (by omega), Nat.add_sub_cancel_left, hu]
      rw [hkl, Function.update_self, r.getNextTcb_ordered hm hv, hL,
        List.getElem?_append_right (by omega), List.getElem?_append_right (by omega),
        show pre.length + (numProc - 1 - chosen.length) + 1 - pre.length =
          (numProc - 1 - chosen.length) + 1 by omega, List.getElem?_cons_succ]

theorem Window.keep {t : Tsk} {s' : Selection} (h : Window numProc L s chosen (t :: rest))
    (hlt : chosen.length < numProc) (htop : s'.top_tcb = s.top_tcb) :
    Window numProc L s' (chosen ++ [t]) rest := by
  obtain ⟨pre, hpre, hs⟩ := h.split
  refine ⟨⟨pre ++ [t], by simp [hpre], hs.append (List.Sublist.refl [t])⟩, ?_, fun k hk => ?_⟩
  · rw [List.length_append, List.length_singleton]
    exact hlt
  · rw [htop, h.top k hk, List.append_assoc, List.singleton_append]

theorem SelInv.drop (r : ReadyLinks live Q c) (hm : Marks c.ready_queue.bitmap Q) {t : Tsk}
    (h : SelInv numProc c u (ordered (rdyQ Q)) s chosen (t :: rest))
    (hlt : chosen.length < numProc) :
    SelInv numProc c u (ordered (rdyQ Q))
      { s with top_tcb := shiftTop numProc c s.top_tcb chosen.length } chosen rest :=
  ⟨⟨h.assign_num, h.top_bit, h.bit_cnt, h.matchable⟩, h.toWindow.drop r hm hlt, h.hist⟩

theorem SelInv.keep (hn : numProc ≤ MAX_PROC) {t : Tsk}
    (h : SelInv numProc c u L s chosen (t :: rest)) (hlt : chosen.length < numProc)
    (hm : ∀ x ∈ L, MaskOk numProc c x) (hctx : ∀ x ∈ L, CtxOk numProc c u x)
    (hmatch : Matchable (mayRunOn numProc c u) (insert t chosen.toFinset)) :
    SelInv numProc c u L
      { s with
        hist := if placeBits numProc c u t ≠ ALL_CORE_BIT numProc ∧ chosen.length ≠ numProc - 1 then
            histAdd s.hist (placeBits numProc c u t)
          else s.hist
        top_bit := Function.update s.top_bit chosen.length (placeBits numProc c u t)
        bit_cnt := sumBits numProc s.bit_cnt (placeBits numProc c u t)
        assign_num := s.assign_num + 1 } (chosen ++ [t]) rest := by
  have hL : ∀ x ∈ chosen, x ∈ L := fun x hx => h.mem (by simp [hx])
  have htL : t ∈ L := h.mem (by simp)
  refine ⟨⟨?_, fun k => ?_, fun k hk => ?_, ?_⟩, h.toWindow.keep hlt rfl, fun hl => ?_⟩
  · show s.assign_num + 1 = _
    rw [h.assign_num, List.length_append, List.length_singleton]
  · show Function.update s.top_bit chosen.length _ k = _
    rcases Nat.lt_trichotomy k chosen.length with hk | hk | hk
    · rw [Function.update_of_ne (by omega), h.top_bit, List.getElem?_append_left hk]
    · subst hk
      simp
    · rw [Function.update_of_ne (by omega), h.top_bit, List.getElem?_eq_none (by omega),
        List.getElem?_eq_none (by simp; omega)]
  · have hbit : hasBit (placeBits numProc c u t) k = true ↔ k ∈ mayRunOn numProc c u t := by
      rw [← procs_placeBits hn (hctx t htL), mem_procs, hasBit_eq_testBit]
      simp [hk]
    have hcount : (chosen.filter (k ∈ mayRunOn numProc c u ·)).length < 2 ^ 32 - 1 := by
      have := List.length_filter_le (fun x => decide (k ∈ mayRunOn numProc c u x)) chosen
      have h4 : numProc ≤ 4 := hn
      omega
    show sumBits numProc s.bit_cnt _ k = _
    unfold sumBits
    rw [List.filter_append, List.length_append, h.bit_cnt k hk]
    by_cases hb : k ∈ mayRunOn numProc c u t
    · rw [if_pos ⟨hk, hbit.mpr hb⟩, List.filter_singleton, decide_eq_true hb, Nat.mod_eq_of_lt]
      · rfl
      · omega
    · rw [if_neg fun x => hb (hbit.mp x.2), List.filter_singleton, decide_eq_false hb]
      rfl
  · rwa [List.toFinset_append, List.toFinset_cons, List.toFinset_nil, insert_empty_eq,
      Finset.union_comm, ← Finset.insert_eq]
  · rw [List.length_append, List.length_singleton] at hl
    show HistOk numProc c u (chosen ++ [t]) (if _ then _ else s.hist)
    by_cases hb : placeBits numProc c u t = ALL_CORE_BIT numProc
    · rw [if_neg (by tauto)]
      exact (h.hist hlt).wide hb
    · rw [if_pos ⟨hb, by omega⟩]
      exact (h.hist hlt).add hn (fun x hx => hm x (hL x hx)) (hm t htL) hb

/-- **The loop is the greedy selection.** It ends, and keeps the tasks the specification keeps. -/
theorem selectTop_greedy (r : ReadyLinks live Q c) (hb : Marks c.ready_queue.bitmap Q)
    (hn : numProc ≤ MAX_PROC) (hm : ∀ x ∈ ordered (rdyQ Q), MaskOk numProc c x)
    (hctx : ∀ x ∈ ordered (rdyQ Q), CtxOk numProc c u x) :
    ∀ (fuel : ℕ) (rest chosen : List Tsk) (s : Selection),
      SelInv numProc c u (ordered (rdyQ Q)) s chosen rest → rest.length < fuel →
      ∃ s', selectTop numProc c u fuel chosen.length s = some s' ∧
        Selected numProc c u (ordered (rdyQ Q)) s'
          (greedy (mayRunOn numProc c u) numProc chosen rest) := by
  intro fuel
  induction fuel with
  | zero => intro rest chosen s _ hf; exact absurd hf (Nat.not_lt_zero _)
  | succ fuel ih =>
    intro rest chosen s h hf
    unfold selectTop
    by_cases hlt : chosen.length < numProc
    swap
    · have hfull : chosen.length = numProc := le_antisymm h.length_le (not_lt.mp hlt)
      rw [if_neg hlt, greedy_full hfull]
      exact ⟨s, rfl, h.selected (Or.inl hfull)⟩
    rw [if_pos hlt, h.top _ hlt, List.getElem?_append_right le_rfl, Nat.sub_self]
    cases rest with
    | nil => exact ⟨s, rfl, h.selected (Or.inr rfl)⟩
    | cons t rest =>
      have nd := h.nodup r.nodup_ordered
      have ndt : (chosen ++ [t]).Nodup :=
        nd.sublist ((List.Sublist.refl chosen).append (by simp))
      have hin : ∀ x ∈ chosen ++ [t], x ∈ ordered (rdyQ Q) := fun x hx =>
        h.mem (by simp only [List.mem_append, List.mem_cons] at hx ⊢; tauto)
      have hkeep := keep_iff hn (h.hist hlt) ndt hlt h.matchable (fun x hx => hm x (hin x hx))
        fun x hx => hctx x (hin x hx)
      have hdrop := h.drop r hb hlt
      rw [List.length_cons] at hf
      simp only [List.getElem?_cons_zero]
      unfold greedy
      rw [if_neg (by omega : ¬chosen.length = numProc)]
      by_cases hmatch : Matchable (mayRunOn numProc c u) (insert t chosen.toFinset)
      · obtain ⟨h0, hover⟩ := hkeep.mpr hmatch
        rw [if_pos hmatch, if_neg h0, if_neg hover]
        have hk := h.keep hn hlt hm hctx hmatch
        have := ih rest (chosen ++ [t]) _ hk (by omega)
        rwa [List.length_append, List.length_singleton] at this
      · rw [if_neg hmatch]
        by_cases h0 : placeBits numProc c u t = 0
        · rw [if_pos h0]
          exact ih rest chosen _ hdrop (by omega)
        · rw [if_neg h0, if_pos (by by_contra hov; exact hmatch (hkeep.mp ⟨h0, hov⟩))]
          exact ih rest chosen _ hdrop (by omega)

end SmpTKernel
