import SmpTKernel.Bitop

/-!
# Resource groups

`subsystem.c`: resource group IDs are the bits of `resid_bitmap`, bit `k` for the ID
`k + MIN_RESID`. `_tk_cre_res` takes the least ID that is not in use (`tkCreRes_least`), and over
any run of calls the IDs in use are the system's one and those created and not deleted since
(`ResRun.inUse_iff`).
-/

namespace SmpTKernel

abbrev MIN_RESID : ℕ := 1
abbrev SYS_RESID : ℤ := MIN_RESID

/-- `resid_bitmap` and `max_resid`. -/
structure ResGroup where
  resid_bitmap : Bytes
  max_resid : ℤ

def indexToResid (index : ℤ) : ℤ := index + MIN_RESID

def residToIndex (resid : ℤ) : ℤ := resid - MIN_RESID

/-- `CHK_RESID`. -/
def chkResid (g : ResGroup) (resid : ℤ) : Bool := MIN_RESID ≤ resid ∧ resid ≤ g.max_resid

/-- `resource_group_initialize`: `tkGetCfn` is what `_tk_get_cfn` returned and stored, and `icalloc`
gives the memory of `Icalloc(1, size)`. -/
def resourceGroupInitialize (tkGetCfn : ℤ × ℤ) (icalloc : ℕ → Option Bytes) :
    ER × Option ResGroup :=
  let (n, max_resid) := tkGetCfn
  if n < 1 ∨ max_resid < 1 then (E_SYS, none)
  else
    match icalloc (UINT ((INT (UINT (max_resid + 7))).tdiv 8)) with
    | none => (E_NOMEM, none)
    | some resid_bitmap =>
      (E_OK, some ⟨tstdlibBitset resid_bitmap (residToIndex SYS_RESID), max_resid⟩)

/-- `_tk_cre_res`; `none` while the search of the bitmap goes on. -/
def tkCreRes (turns : ℕ) (g : ResGroup) : Option (ER × ResGroup) :=
  (tstdlibBitsearch0 turns g.resid_bitmap 0 g.max_resid).result.map fun n =>
    if n < 0 then (E_LIMIT, g)
    else (indexToResid n, { g with resid_bitmap := tstdlibBitset g.resid_bitmap n })

def tkDelRes (g : ResGroup) (resid : ℤ) : ER × ResGroup :=
  if ¬chkResid g resid then (E_ID, g)
  else if resid = SYS_RESID then (E_ID, g)
  else
    let idx := residToIndex resid
    if ¬tstdlibBittest g.resid_bitmap idx then (E_NOEXS, g)
    else (E_OK, { g with resid_bitmap := tstdlibBitclr g.resid_bitmap idx })

/-! ## IDs in use -/

/-- The ID is in use. -/
def ResGroup.InUse (g : ResGroup) (resid : ℤ) : Prop :=
  bitAt g.resid_bitmap (residToIndex resid).toNat = true

/-- What `_tk_cre_res` has to do: take the least ID that is not in use, or find all in use. -/
def CreResRight (g : ResGroup) (r : ER × ResGroup) : Prop :=
  (r = (E_LIMIT, g) ∧ ∀ id, chkResid g id → g.InUse id) ∨
    chkResid g r.1 ∧ ¬g.InUse r.1 ∧ (∀ id, 1 ≤ id → id < r.1 → g.InUse id) ∧
      r.2.max_resid = g.max_resid ∧ ∀ id, 1 ≤ id → (r.2.InUse id ↔ id = r.1 ∨ g.InUse id)

variable {g : ResGroup} {id : ℤ}

theorem chkResid_iff : chkResid g id = true ↔ 1 ≤ id ∧ id ≤ g.max_resid := decide_eq_true_iff

theorem inUse_natCast (k : ℕ) : g.InUse (k + 1) ↔ bitAt g.resid_bitmap k = true := by
  unfold ResGroup.InUse residToIndex
  rw [show ((k : ℤ) + 1 - MIN_RESID).toNat = k by simp only [MIN_RESID]; omega]

theorem exists_index (h : 1 ≤ id) : ∃ k : ℕ, id = k + 1 := ⟨(id - 1).toNat, by omega⟩

/-- **The least free ID.** -/
theorem tkCreRes_least (hmax : g.max_resid < 2 ^ 31)
    (fits : SearchFits false g.resid_bitmap 0 g.max_resid.toNat) {turns : ℕ}
    (ht : g.max_resid ≤ turns) (h0 : 0 ≤ g.max_resid) :
    ∃ r, tkCreRes (turns + 1) g = some r ∧ CreResRight g r := by
  obtain ⟨bitmap, max⟩ := g
  obtain ⟨n, rfl⟩ : ∃ n : ℕ, max = n := ⟨max.toNat, (Int.toNat_of_nonneg h0).symm⟩
  change (n : ℤ) < 2 ^ 31 at hmax
  change (n : ℤ) ≤ turns at ht
  change SearchFits false bitmap 0 (n : ℤ).toNat at fits
  rw [Int.toNat_natCast] at fits
  have hchk : ∀ k : ℕ, chkResid ⟨bitmap, n⟩ (k + 1) = true ↔ k < n := by
    intro k
    rw [chkResid_iff]
    show 1 ≤ (k : ℤ) + 1 ∧ (k : ℤ) + 1 ≤ n ↔ k < n
    omega
  have hsearch : SearchRight false bitmap 0 n
      (tstdlibBitsearch0 (turns + 1) bitmap ((0 : ℕ) : ℤ) (n : ℤ)) :=
    bitsearch_right looks_tests0 (by omega) fits (by omega)
  obtain ⟨⟨r, hr, hfirst⟩, -⟩ := hsearch
  refine ⟨_, congrArg (Option.map _) hr, ?_⟩
  rcases hfirst with ⟨rfl, hall⟩ | ⟨p, hp, rfl, hclear, hset⟩
  · refine Or.inl ⟨if_pos (by norm_num), fun id hid => ?_⟩
    obtain ⟨k, rfl⟩ := exists_index (chkResid_iff.mp hid).1
    have := hall k ((hchk k).mp hid)
    rw [zero_add] at this
    exact (inUse_natCast k).mpr this
  · dsimp only
    rw [if_neg (by omega)]
    rw [zero_add] at hclear
    refine Or.inr ⟨(hchk p).mpr hp, fun c => ?_, fun id hid hlt => ?_, rfl, fun id hid => ?_⟩
    · have := (inUse_natCast p).mp c
      rw [hclear] at this
      cases this
    · obtain ⟨k, rfl⟩ := exists_index hid
      have hlt' : (k : ℤ) + 1 < p + 1 := hlt
      have := hset k (by omega)
      rw [zero_add] at this
      exact (inUse_natCast k).mpr this
    · obtain ⟨k, rfl⟩ := exists_index hid
      rw [inUse_natCast, inUse_natCast, bitAt_bitset]
      simp [indexToResid]

/-! ## Runs -/

/-- Any calls of `_tk_cre_res` and `_tk_del_res`, and the IDs created and not deleted since. -/
inductive ResRun (turns : ℕ) (g₀ : ResGroup) : Set ℤ → ResGroup → Prop
  | start : ResRun turns g₀ {SYS_RESID} g₀
  | cre {ids : Set ℤ} {g g' : ResGroup} {r : ER} (run : ResRun turns g₀ ids g)
      (call : tkCreRes (turns + 1) g = some (r, g')) :
      ResRun turns g₀ {id | id ∈ ids ∨ id = r ∧ 0 < r} g'
  | del {ids : Set ℤ} {g : ResGroup} (run : ResRun turns g₀ ids g) (resid : ℤ) :
      ResRun turns g₀ {id | id ∈ ids ∧ ¬(id = resid ∧ (tkDelRes g resid).1 = E_OK)}
        (tkDelRes g resid).2

/-- Deleting clears the bit of the ID, or nothing. -/
theorem tkDelRes_inUse (resid : ℤ) : (tkDelRes g resid).2.max_resid = g.max_resid ∧
    ∀ id, 1 ≤ id → ((tkDelRes g resid).2.InUse id ↔
      g.InUse id ∧ ¬(id = resid ∧ (tkDelRes g resid).1 = E_OK)) := by
  have hid : E_ID ≠ E_OK := by norm_num
  have hnoexs : E_NOEXS ≠ E_OK := by norm_num
  unfold tkDelRes
  dsimp only
  by_cases hchk : chkResid g resid = true
  swap
  · rw [if_pos hchk]
    simp [hid]
  by_cases hsys : resid = SYS_RESID
  · rw [if_neg (not_not_intro hchk), if_pos hsys]
    simp [hid]
  rw [if_neg (not_not_intro hchk), if_neg hsys]
  by_cases hset : tstdlibBittest g.resid_bitmap (residToIndex resid) = true
  swap
  · rw [if_pos hset]
    simp [hnoexs]
  · rw [if_neg (not_not_intro hset)]
    refine ⟨rfl, fun id hid => ?_⟩
    have hres : 1 ≤ resid := (chkResid_iff.mp hchk).1
    obtain ⟨k, rfl⟩ := exists_index hid
    obtain ⟨p, rfl⟩ := exists_index hres
    rw [inUse_natCast, inUse_natCast, show residToIndex ((p : ℤ) + 1) = p by simp [residToIndex],
      bitAt_bitclr]
    simp [and_comm]

/-- The IDs in use after a run. -/
structure ResInv (g₀ : ResGroup) (ids : Set ℤ) (g : ResGroup) : Prop where
  max : g.max_resid = g₀.max_resid
  inUse : ∀ id, chkResid g₀ id → (g.InUse id ↔ id ∈ ids)

/-- Only the bit of the system's ID is set at first. -/
theorem resourceGroupInitialize_inv {cfn : ℤ × ℤ} {icalloc : ℕ → Option Bytes} {g₀ : ResGroup}
    (h : resourceGroupInitialize cfn icalloc = (E_OK, some g₀)) (hmax : cfn.2 ≤ 2 ^ 31 - 8)
    (hzero : ∀ size mem, icalloc size = some mem → ∀ i < size, mem i = 0) :
    (1 ≤ g₀.max_resid ∧ g₀.max_resid ≤ 2 ^ 31 - 8) ∧ ResInv g₀ {SYS_RESID} g₀ := by
  obtain ⟨n, max⟩ := cfn
  unfold resourceGroupInitialize at h
  dsimp only at h hmax
  split_ifs at h with hbad
  · simp at h
  rcases hmem : icalloc (UINT ((INT (UINT (max + 7))).tdiv 8)) with _ | mem
  · rw [hmem] at h
    simp at h
  rw [hmem] at h
  simp only [Prod.mk.injEq, true_and, Option.some.injEq] at h
  subst h
  refine ⟨⟨by dsimp only; omega, hmax⟩, rfl, fun id hid => ?_⟩
  obtain ⟨hid1, hidmax⟩ := chkResid_iff.mp hid
  obtain ⟨k, rfl⟩ := exists_index hid1
  change (k : ℤ) + 1 ≤ max at hidmax
  obtain ⟨m, rfl⟩ : ∃ m : ℕ, max = m := ⟨max.toNat, by omega⟩
  have hsize : UINT ((INT (UINT ((m : ℤ) + 7))).tdiv 8) = (m + 7) / 8 := by
    rw [INT_UINT (by omega) (by omega), show (m : ℤ) + 7 = ((m + 7 : ℕ) : ℤ) by push_cast; rfl,
      show (8 : ℤ) = ((8 : ℕ) : ℤ) from rfl, ← Int.ofNat_tdiv, UINT_natCast (by omega)]
  have hbyte := hzero _ _ hmem (k / 8) (by omega)
  have hbit : bitAt mem k = false := by
    unfold bitAt
    rw [hbyte]
    simp
  rw [inUse_natCast, show residToIndex SYS_RESID = ((0 : ℕ) : ℤ) from rfl, bitAt_bitset, hbit]
  simp

variable {g₀ : ResGroup} {ids : Set ℤ} {turns : ℕ}

theorem ResInv.cre (inv : ResInv g₀ ids g) (hmax : 0 ≤ g₀.max_resid ∧ g₀.max_resid ≤ 2 ^ 31 - 8)
    (ht : g₀.max_resid ≤ turns) : ∃ r, tkCreRes (turns + 1) g = some r ∧ CreResRight g r := by
  have e := inv.max
  rw [← e] at hmax ht
  exact tkCreRes_least (by omega) (Or.inl (by omega)) ht (by omega)

/-- **The IDs in use.** They are the system's one and those created and not deleted since. -/
theorem ResRun.inUse_iff (init : ResInv g₀ {SYS_RESID} g₀)
    (hmax : 0 ≤ g₀.max_resid ∧ g₀.max_resid ≤ 2 ^ 31 - 8) (ht : g₀.max_resid ≤ turns)
    (run : ResRun turns g₀ ids g) : ResInv g₀ ids g := by
  induction run with
  | start => exact init
  | @cre ids g g' r run call ih =>
    obtain ⟨r', e, hright⟩ := ih.cre hmax ht
    rw [call] at e
    obtain rfl := Option.some.inj e
    rcases hright with ⟨e, -⟩ | ⟨hr, -, -, hm, huse⟩
    · obtain ⟨rfl, rfl⟩ := Prod.mk.injEq .. ▸ e
      refine ⟨ih.max, fun id hid => ?_⟩
      rw [ih.inUse id hid]
      simp
    · refine ⟨hm.trans ih.max, fun id hid => ?_⟩
      have hr1 := (chkResid_iff.mp hr).1
      rw [huse id (chkResid_iff.mp hid).1, ih.inUse id hid]
      have hpos : 0 < r := lt_of_lt_of_le Int.one_pos hr1
      simp [hpos, or_comm]
  | @del ids g run resid ih =>
    obtain ⟨hm, huse⟩ := @tkDelRes_inUse g resid
    refine ⟨hm.trans ih.max, fun id hid => ?_⟩
    rw [huse id (chkResid_iff.mp hid).1, ih.inUse id hid]
    rfl

/-- After a run `_tk_cre_res` takes the least ID that the run did not leave in use. -/
theorem ResRun.cre_least (init : ResInv g₀ {SYS_RESID} g₀)
    (hmax : 0 ≤ g₀.max_resid ∧ g₀.max_resid ≤ 2 ^ 31 - 8) (ht : g₀.max_resid ≤ turns)
    (run : ResRun turns g₀ ids g) :
    ∃ r g', tkCreRes (turns + 1) g = some (r, g') ∧
      ((r = E_LIMIT ∧ ∀ id, chkResid g₀ id → id ∈ ids) ∨
        chkResid g₀ r ∧ r ∉ ids ∧ ∀ id, 1 ≤ id → id < r → id ∈ ids) := by
  have inv := run.inUse_iff init hmax ht
  have hchk : ∀ id, chkResid g id = chkResid g₀ id := by
    intro id
    unfold chkResid
    rw [inv.max]
  obtain ⟨⟨r, g'⟩, e, hright⟩ := inv.cre hmax ht
  refine ⟨r, g', e, ?_⟩
  rcases hright with ⟨he, hall⟩ | ⟨hr, hfree, hleast, -, -⟩
  · refine Or.inl ⟨congrArg Prod.fst he, fun id hid => ?_⟩
    exact (inv.inUse id hid).mp (hall id ((hchk id).trans hid))
  · rw [hchk] at hr
    refine Or.inr ⟨hr, fun c => hfree ((inv.inUse r hr).mpr c), fun id hid hlt => ?_⟩
    have hlt' : id < r := hlt
    have hidchk : chkResid g₀ id = true :=
      chkResid_iff.mpr ⟨hid, hlt'.le.trans (chkResid_iff.mp hr).2⟩
    exact (inv.inUse id hidchk).mp (hleast id hid hlt)

end SmpTKernel
