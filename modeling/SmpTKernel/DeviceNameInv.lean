import SmpTKernel.DeviceName
import Mathlib.Algebra.Order.Ring.Abs
import Mathlib.Data.List.TakeWhile
import Mathlib.Tactic.Positivity

/-!
# What the names of devices stand for

A name stands for a device or for one of its subunits; `tk_ref_dev` and `tk_opn_dev` see this as
long as no device with a digit in its name is concerned, and as long as only digits follow the first
digit. In other cases they find another device, none, or a subunit that does not exist.
-/

namespace SmpTKernel

open Words

/-! ## Numbers -/

/-- What a string of characters denotes in base ten, each character counted from `'0'` on. -/
def numeral (cs : List UB) : ℤ := cs.foldl (fun v c => v * 10 + digitOf c) 0

theorem digitOf_bounds (c : UB) : -48 ≤ digitOf c ∧ digitOf c ≤ 207 := by
  unfold digitOf
  have := c.isLt
  omega

theorem digitOf_of_isDigit {c : UB} (h : isDigit c = true) : 0 ≤ digitOf c ∧ digitOf c ≤ 9 := by
  unfold isDigit at h
  unfold digitOf
  have := of_decide_eq_true h
  omega

/-- Nothing is lost in 32 bits while the string is short. -/
theorem foldl_INT {cs : List UB} {v : ℤ} (h : (|v| + 23) * 10 ^ cs.length < 2 ^ 31) :
    cs.foldl (fun v c => INT (UINT (v * 10 + digitOf c))) v = cs.foldl (fun v c =>
      v * 10 + digitOf c) v ∧
      |cs.foldl (fun v c => v * 10 + digitOf c) v| + 23 ≤ (|v| + 23) * 10 ^ cs.length := by
  induction cs generalizing v with
  | nil => exact ⟨rfl, by simp⟩
  | cons c cs ih =>
    obtain ⟨hlo, hhi⟩ := digitOf_bounds c
    have hv : |v * 10 + digitOf c| + 23 ≤ (|v| + 23) * 10 := by
      rcases abs_cases v with ⟨e, _⟩ | ⟨e, _⟩ <;> rcases abs_cases (v * 10 + digitOf c) with
        ⟨e', _⟩ | ⟨e', _⟩ <;> omega
    have hpow : (|v * 10 + digitOf c| + 23) * 10 ^ cs.length ≤
        (|v| + 23) * 10 ^ (cs.length + 1) := by
      calc (|v * 10 + digitOf c| + 23) * 10 ^ cs.length ≤ (|v| + 23) * 10 * 10 ^ cs.length :=
            mul_le_mul_of_nonneg_right hv (by positivity)
        _ = (|v| + 23) * 10 ^ (cs.length + 1) := by rw [pow_succ', mul_assoc]
    rw [List.length_cons] at h ⊢
    have hone : (1 : ℤ) ≤ 10 ^ cs.length := one_le_pow₀ (by norm_num)
    have hbound : |v * 10 + digitOf c| + 23 < 2 ^ 31 := by
      have hpos : 0 ≤ |v * 10 + digitOf c| + 23 := by positivity
      have := le_mul_of_one_le_right hpos hone
      omega
    have habs := abs_le.mp (show |v * 10 + digitOf c| ≤ 2 ^ 31 - 24 by omega)
    simp only [List.foldl_cons]
    rw [INT_UINT (by omega) (by omega)]
    obtain ⟨e, hle⟩ := ih (hpow.trans_lt h)
    exact ⟨e, hle.trans hpow⟩

theorem numeral_nonneg {cs : List UB} (h : ∀ c ∈ cs, isDigit c = true) : 0 ≤ numeral cs := by
  unfold numeral
  suffices ∀ v : ℤ, 0 ≤ v → 0 ≤ cs.foldl (fun v c => v * 10 + digitOf c) v from this 0 le_rfl
  induction cs with
  | nil => exact fun v hv => hv
  | cons c cs ih =>
    intro v hv
    have := (digitOf_of_isDigit (h c List.mem_cons_self)).1
    have hv' : 0 ≤ v * 10 + digitOf c := by omega
    exact ih (fun x hx => h x (List.mem_cons_of_mem c hx)) _ hv'

/-! ## Splitting a name -/

/-- A string of other characters than digits. -/
def NoDigit (cs : List UB) : Prop := ∀ c ∈ cs, isDigit c = false

instance (cs : List UB) : Decidable (NoDigit cs) :=
  inferInstanceAs (Decidable (∀ c ∈ cs, isDigit c = false))

/-- A string that begins with a digit. -/
def DigitHead (cs : List UB) : Prop := ∃ c cs', cs = c :: cs' ∧ isDigit c = true

theorem phydevnm_append {p cs : List UB} (hp : NoDigit p) (hcs : DigitHead cs)
    (hlen : cs.length ≤ 8) :
    phydevnm (p ++ cs) = (p, numeral cs + 1) := by
  obtain ⟨c, cs, rfl, hc⟩ := hcs
  have htake : (p ++ c :: cs).takeWhile (fun c => !isDigit c) = p := by
    rw [List.takeWhile_append_of_pos fun x hx => by
      rw [hp x hx]; rfl, List.takeWhile_cons_of_neg (by simp [hc]), List.append_nil]
  have hdrop : (p ++ c :: cs).dropWhile (fun c => !isDigit c) = c :: cs := by
    rw [List.dropWhile_append_of_pos fun x hx => by
      rw [hp x hx]; rfl, List.dropWhile_cons_of_neg (by simp [hc])]
  -- the first digit leaves room for seven characters
  obtain ⟨h0, h9⟩ := digitOf_of_isDigit hc
  have hpow : (10 : ℤ) ^ cs.length ≤ 10 ^ 7 := by
    rw [List.length_cons] at hlen
    exact pow_le_pow_right₀ (by norm_num) (by omega)
  have habs : |digitOf c| = digitOf c := abs_of_nonneg h0
  have hroom : (|digitOf c| + 23) * 10 ^ cs.length ≤ 32 * 10 ^ 7 :=
    mul_le_mul (by omega) hpow (by positivity) (by norm_num)
  obtain ⟨e, hle⟩ := @foldl_INT cs (digitOf c) (by omega)
  unfold phydevnm
  simp only [htake, hdrop, List.cons_ne_nil, if_false, List.foldl_cons]
  unfold numeral
  have hfirst : INT (UINT (digitOf c)) = digitOf c := INT_UINT (by omega) (by omega)
  rw [List.foldl_cons, zero_mul, zero_add, hfirst, e]
  have hres :=
    abs_le.mp (show |cs.foldl (fun v c => v * 10 + digitOf c) (digitOf c)| ≤ 32 * 10 ^ 7 by omega)
  rw [INT_UINT (by omega) (by omega)]

theorem phydevnm_noDigit {p : List UB} (hp : NoDigit p) : phydevnm p = (p, 0) := by
  have htake : p.takeWhile (fun c => !isDigit c) = p :=
    List.takeWhile_eq_self_iff.mpr fun x hx => by rw [hp x hx]; rfl
  have hdrop : p.dropWhile (fun c => !isDigit c) = [] :=
    List.dropWhile_eq_nil_iff.mpr fun x hx => by rw [hp x hx]; rfl
  unfold phydevnm
  simp only [htake, hdrop, if_true]

theorem exists_split (devnm : List UB) : NoDigit devnm ∨ ∃ p cs, devnm = p ++ cs ∧ NoDigit p ∧
    DigitHead cs := by
  by_cases h : NoDigit devnm
  · exact Or.inl h
  · right
    refine ⟨devnm.takeWhile fun c => !isDigit c, devnm.dropWhile fun c => !isDigit c,
      List.takeWhile_append_dropWhile.symm, fun c hc => ?_, ?_⟩
    · simpa using List.mem_takeWhile_imp hc
    · cases hd : devnm.dropWhile fun c => !isDigit c with
      | nil =>
        refine absurd (fun c hc => ?_) h
        simpa using List.dropWhile_eq_nil_iff.mp hd c hc
      | cons c cs =>
        refine ⟨c, cs, rfl, ?_⟩
        have := List.head_dropWhile_not (fun c => !isDigit c) (l := devnm)
          (by rw [hd]; exact List.cons_ne_nil c cs)
        simpa [hd] using this

/-! ## Names of subunits -/

theorem isDigit_unitno (n : ℕ) : isDigit (BitVec.ofNat 8 (48 + n % 10)) = true := by
  unfold isDigit
  rw [BitVec.toNat_ofNat]
  exact decide_eq_true (by omega)

theorem digitOf_unitno (n : ℕ) : digitOf (BitVec.ofNat 8 (48 + n % 10)) = (n % 10 : ℕ) := by
  unfold digitOf
  rw [BitVec.toNat_ofNat]
  omega

theorem unitnoLoop_spec (n : ℕ) (cp : List UB) : ∃ ds, unitnoLoop n cp = ds ++ cp ∧ ds ≠ [] ∧
    (∀ c ∈ ds, isDigit c = true) ∧ numeral ds = n := by
  induction n using Nat.strong_induction_on generalizing cp with
  | _ n ih =>
    rw [unitnoLoop]
    by_cases h : n / 10 = 0
    · refine ⟨[BitVec.ofNat 8 (48 + n % 10)], by rw [if_pos h]; rfl, List.cons_ne_nil _ _,
        fun c hc => ?_, ?_⟩
      · rw [List.mem_singleton.mp hc]
        exact isDigit_unitno n
      · show 0 * 10 + digitOf _ = _
        rw [digitOf_unitno]
        omega
    · obtain ⟨ds, e, hne, hdig, hnum⟩ := ih (n / 10) (by omega) (BitVec.ofNat 8 (48 + n % 10) :: cp)
      refine ⟨ds ++ [BitVec.ofNat 8 (48 + n % 10)], ?_, by simp, fun c hc => ?_, ?_⟩
      · rw [if_neg h, e, List.append_assoc, List.singleton_append]
      · rcases List.mem_append.mp hc with hc | hc
        · exact hdig c hc
        · rw [List.mem_singleton.mp hc]
          exact isDigit_unitno n
      · unfold numeral at hnum ⊢
        rw [List.foldl_append, hnum]
        show (n / 10 : ℕ) * 10 + digitOf _ = _
        rw [digitOf_unitno]
        omega

theorem length_unitnoLoop (n : ℕ) (cp : List UB) (h : n < 1000) :
    (unitnoLoop n cp).length ≤ cp.length + 3 := by
  rw [unitnoLoop]
  split_ifs with h₁
  · simp
  rw [unitnoLoop]
  split_ifs with h₂
  · simp
  rw [unitnoLoop, if_pos (by omega)]
  simp

theorem digitHead_of {ds : List UB} (hne : ds ≠ []) (h : ∀ c ∈ ds, isDigit c = true) :
    DigitHead ds := by
  obtain ⟨c, cs, rfl⟩ := List.exists_cons_of_ne_nil hne
  exact ⟨c, cs, rfl, h c List.mem_cons_self⟩

/-- **Round trip.** -/
theorem phydevnm_logdevnm {p : List UB} (hp : NoDigit p) {unitno : ℤ} (h0 : 0 ≤ unitno)
    (h : unitno ≤ MAX_UNIT) :
    phydevnm (logdevnm p unitno) = (p, unitno) := by
  unfold logdevnm
  by_cases hu : unitno > 0
  · rw [if_pos hu]
    obtain ⟨ds, e, hne, hdig, hnum⟩ := unitnoLoop_spec (unitno - 1).toNat []
    have hmax : MAX_UNIT = 255 := rfl
    have hlen := length_unitnoLoop (unitno - 1).toNat [] (by omega)
    rw [e, List.append_nil] at hlen ⊢
    rw [phydevnm_append hp (digitHead_of hne hdig) (hlen.trans (by norm_num)), hnum]
    congr 1
    omega
  · rw [if_neg hu, phydevnm_noDigit hp]
    congr 1
    omega

theorem noDigit_phydevnm (devnm : List UB) : NoDigit (phydevnm devnm).1 := by
  have h : (phydevnm devnm).1 = devnm.takeWhile fun c => !isDigit c := by
    unfold phydevnm
    dsimp only
    split_ifs <;> rfl
  rw [h]
  intro c hc
  simpa using List.mem_takeWhile_imp hc

/-! ## The table -/

structure DevTblInv (s : DevTbl) : Prop where
  names : (s.used.map DevReg.devnm).Nodup
  nsub : ∀ d ∈ s.used, 0 ≤ d.nsub ∧ d.nsub ≤ MAX_UNIT

variable {s : DevTbl} {d : DevReg} {devnm : List UB} {unitno : ℤ}

theorem searchDevCB_eq_none : s.searchDevCB devnm = none ↔ ∀ d ∈ s.used, d.devnm ≠ devnm := by
  unfold DevTbl.searchDevCB
  rw [List.find?_eq_none]
  exact forall₂_congr fun d _ => by rw [decide_eq_true_eq]

theorem mem_of_searchDevCB (h : s.searchDevCB devnm = some d) : d ∈ s.used ∧ d.devnm = devnm := by
  unfold DevTbl.searchDevCB at h
  exact ⟨List.mem_of_find?_eq_some h, by simpa using List.find?_some h⟩

theorem DevTblInv.search (inv : DevTblInv s) (h : d ∈ s.used) : s.searchDevCB d.devnm = some d := by
  cases hs : s.searchDevCB d.devnm with
  | none => exact absurd rfl (searchDevCB_eq_none.mp hs d h)
  | some d' =>
    obtain ⟨hm, e⟩ := mem_of_searchDevCB hs
    rw [List.inj_on_of_nodup_map inv.names hm h e]

theorem checkDdev_ok {len : ℕ} {chk : ER} {nsub : ℤ}
    (h : ¬DevTbl.checkDdev len (some (chk, nsub)) < E_OK) :
    0 ≤ nsub ∧ nsub ≤ MAX_UNIT := by
  unfold DevTbl.checkDdev at h
  dsimp only at h
  split at h
  next hc => exact absurd hc h
  split at h
  · exact absurd (by decide) h
  next hrange => omega

theorem DevTblInv.exec (inv : DevTblInv s) (op : DefDev) : DevTblInv (op.exec s) := by
  unfold DefDev.exec DevTbl.tkDefDev
  split
  · exact inv
  split
  · exact inv
  split
  · exact inv
  next hddev =>
  split
  · exact inv
  split
  · exact inv
  next hsearch e =>
    -- new registration
    rw [e] at hddev
    have hnsub := checkDdev_ok hddev
    split
    · exact inv
    next no free _ =>
      refine ⟨?_, fun d hd => ?_⟩
      · show ((s.used ++ [_]).map DevReg.devnm).Nodup
        rw [List.map_append, List.map_singleton]
        refine (List.perm_append_singleton _ _).symm.nodup (List.nodup_cons.mpr ⟨fun hm => ?_,
          inv.names⟩)
        obtain ⟨d, hd, hname⟩ := List.mem_map.mp hm
        exact searchDevCB_eq_none.mp hsearch d hd hname
      · rcases List.mem_append.mp hd with hd | hd
        · exact inv.nsub d hd
        · rw [List.mem_singleton.mp hd]
          exact hnsub
  next devcb _ nsub hsearch e =>
    -- update of the registration
    rw [e] at hddev
    have hnsub := checkDdev_ok hddev
    refine ⟨?_, fun d hd => ?_⟩
    · show ((s.used.map fun d => if d = devcb then { d with nsub := nsub } else d).map
        DevReg.devnm).Nodup
      have hsame : DevReg.devnm ∘ (fun d => if d = devcb then { d with nsub := nsub } else d) =
          DevReg.devnm := by
        funext d
        simp only [Function.comp]
        split_ifs <;> rfl
      rw [List.map_map, hsame]
      exact inv.names
    · obtain ⟨d', hd', rfl⟩ := List.mem_map.mp hd
      split_ifs
      · exact hnsub
      · exact inv.nsub d' hd'
  next devcb _ _ =>
    split
    · exact inv
    · exact ⟨(List.erase_sublist.map _).nodup inv.names, fun d hd =>
        inv.nsub d (List.mem_of_mem_erase hd)⟩

theorem DevTblRun.inv (run : DevTblRun s) : DevTblInv s := by
  induction run with
  | init maxRegDev => exact ⟨List.nodup_nil, nofun⟩
  | step op _ ih => exact ih.exec op

/-! ## What a name stands for -/

/-- The name is that of the device, or of one of its subunits. -/
def Denotes (d : DevReg) (devnm : List UB) (unitno : ℤ) : Prop :=
  devnm = d.devnm ∧ unitno = 0 ∨
    ∃ ds, ds ≠ [] ∧ (∀ c ∈ ds, isDigit c = true) ∧ devnm = d.devnm ++ ds ∧
      numeral ds = unitno - 1 ∧ unitno ≤ d.nsub

/-- The names of the table and the calls agree about a name. -/
structure NamesRight (s : DevTbl) (devnm : List UB) : Prop where
  /-- If a device has this name, the names of its units lead back to it. -/
  roundTrip : ∀ d ∈ s.used, d.devnm = devnm → ∀ unitno, 0 ≤ unitno → unitno ≤ d.nsub →
    phydevnm (logdevnm devnm unitno) = (devnm, unitno)
  accepted : ∀ d ∈ s.used, ∀ unitno, Denotes d devnm unitno →
    s.tkRefDev E_OK devnm = .ok (d.DEVID unitno, d.nsub, unitno) ∧
      ∀ opn, s.tkOpnDev E_OK true devnm opn = opn d unitno
  refused : (∀ d ∈ s.used, ∀ unitno, ¬Denotes d devnm unitno) →
    s.tkRefDev E_OK devnm = .error E_NOEXS ∧ ∀ opn, s.tkOpnDev E_OK true devnm opn = .error E_NOEXS
  /-- No unit that is found is negative. -/
  bounds : ∀ devid nsub unitno, s.tkRefDev E_OK devnm = .ok (devid, nsub, unitno) →
    0 ≤ unitno ∧ unitno ≤ nsub

/-- When names are no trouble. -/
structure PlainName (s : DevTbl) (devnm : List UB) : Prop where
  /-- The device or subunit it stands for has no digit in the name of the device. -/
  letters : ∀ d ∈ s.used, ∀ unitno, Denotes d devnm unitno → NoDigit d.devnm
  /-- Behind the name of a device without digits stands a number, unless its first character is none
  or it is too large even with every character counted as a digit. -/
  digits : ∀ d ∈ s.used, ∀ cs, NoDigit d.devnm → DigitHead cs → devnm = d.devnm ++ cs →
    numeral cs < d.nsub → ∀ c ∈ cs, isDigit c = true

theorem DevTblInv.findDev_noDigit (inv : DevTblInv s) (h : NoDigit devnm) (hd : d ∈ s.used)
    (e : d.devnm = devnm) :
    s.findDev devnm = .ok (d, 0) := by
  unfold DevTbl.findDev
  rw [phydevnm_noDigit h, ← e]
  simp only [inv.search hd]
  rw [if_neg (not_lt.mpr (inv.nsub d hd).1)]

theorem DevTblInv.findDev_digit (inv : DevTblInv s) {cs : List UB} (h : NoDigit d.devnm)
    (hcs : DigitHead cs) (hlen : cs.length ≤ 8) (hd : d ∈ s.used) :
    s.findDev (d.devnm ++ cs) = if numeral cs + 1 > d.nsub then .error E_NOEXS else .ok
      (d, numeral cs + 1) := by
  unfold DevTbl.findDev
  rw [phydevnm_append h hcs hlen]
  simp only [inv.search hd]

theorem calls_of_ok (h : s.findDev devnm = .ok (d, unitno)) :
    s.tkRefDev E_OK devnm = .ok (d.DEVID unitno, d.nsub, unitno) ∧
      ∀ opn, s.tkOpnDev E_OK true devnm opn = opn d unitno := by
  unfold DevTbl.tkRefDev DevTbl.tkOpnDev
  rw [h]
  exact ⟨rfl, fun _ => rfl⟩

theorem calls_of_error {ercd : ER} (h : s.findDev devnm = .error ercd) :
    s.tkRefDev E_OK devnm = .error ercd ∧ ∀ opn, s.tkOpnDev E_OK true devnm opn = .error ercd := by
  unfold DevTbl.tkRefDev DevTbl.tkOpnDev
  rw [h]
  exact ⟨rfl, fun _ => rfl⟩

theorem findDev_eq (s : DevTbl) (devnm : List UB) : s.findDev devnm =
    (s.searchDevCB (phydevnm devnm).1).elim (.error E_NOEXS) fun devcb =>
      if (phydevnm devnm).2 > devcb.nsub then .error E_NOEXS else .ok
        (devcb, (phydevnm devnm).2) := by
  unfold DevTbl.findDev
  obtain ⟨pdevnm, unitno⟩ := phydevnm devnm
  dsimp only
  cases s.searchDevCB pdevnm <;> rfl

theorem findDev_error {ercd : ER} (h : s.findDev devnm = .error ercd) : ercd = E_NOEXS := by
  rw [findDev_eq] at h
  cases hs : s.searchDevCB (phydevnm devnm).1 with
  | none =>
    rw [hs] at h
    exact (Except.error.inj h).symm
  | some devcb =>
    rw [hs, Option.elim_some] at h
    split_ifs at h
    exact (Except.error.inj h).symm

/-- The device that is found has the part before the first digit as its name. -/
theorem findDev_ok (h : s.findDev devnm = .ok (d, unitno)) :
    d ∈ s.used ∧ d.devnm = (phydevnm devnm).1 ∧ unitno = (phydevnm devnm).2 ∧ unitno ≤ d.nsub := by
  rw [findDev_eq] at h
  cases hs : s.searchDevCB (phydevnm devnm).1 with
  | none =>
    rw [hs] at h
    cases h
  | some devcb =>
    rw [hs, Option.elim_some] at h
    split_ifs at h with hle
    obtain ⟨rfl, rfl⟩ := Prod.mk.inj (Except.ok.inj h)
    obtain ⟨hm, e⟩ := mem_of_searchDevCB hs
    exact ⟨hm, e, rfl, not_lt.mp hle⟩

theorem Denotes.bounds (inv : DevTblInv s) (hd : d ∈ s.used) (h : Denotes d devnm unitno) :
    0 ≤ unitno ∧ unitno ≤ d.nsub := by
  rcases h with ⟨-, rfl⟩ | ⟨ds, -, hdig, -, hnum, hle⟩
  · exact ⟨le_rfl, (inv.nsub d hd).1⟩
  · have := numeral_nonneg hdig
    exact ⟨by omega, hle⟩

/-- Under the condition the search finds what the name stands for. -/
theorem DevTblInv.findDev_plain (inv : DevTblInv s) (hlen : devnm.length ≤ L_DEVNM)
    (plain : PlainName s devnm) :
    (∃ d ∈ s.used, ∃ unitno, Denotes d devnm unitno ∧ s.findDev devnm = .ok (d, unitno)) ∨
      (∀ d ∈ s.used, ∀ unitno, ¬Denotes d devnm unitno) ∧ s.findDev devnm = .error E_NOEXS := by
  have herror (h : ∀ d u, s.findDev devnm = .ok (d, u) →
    ∃ d ∈ s.used, ∃ unitno, Denotes d devnm unitno ∧
      s.findDev devnm = .ok (d, unitno)) : (∃ d ∈ s.used, ∃ unitno, Denotes d devnm unitno ∧
      s.findDev devnm = .ok (d, unitno)) ∨ s.findDev devnm = .error E_NOEXS := by
    cases hf : s.findDev devnm with
    | error ercd => exact Or.inr (congrArg _ (findDev_error hf))
    | ok r => exact Or.inl (hf ▸ h r.1 r.2 hf)
  by_cases hden : ∃ d ∈ s.used, ∃ unitno, Denotes d devnm unitno
  · obtain ⟨d, hd, unitno, h⟩ := hden
    have hno := plain.letters d hd unitno h
    refine Or.inl ⟨d, hd, unitno, h, ?_⟩
    rcases h with ⟨rfl, rfl⟩ | ⟨ds, hne, hdig, rfl, hnum, hle⟩
    · exact inv.findDev_noDigit hno hd rfl
    · have hshort : ds.length ≤ 8 := by
        rw [List.length_append] at hlen
        exact (Nat.le_add_left _ _).trans hlen
      rw [inv.findDev_digit hno (digitHead_of hne hdig) hshort hd, if_neg (by omega), hnum,
        Int.sub_add_cancel]
  · have hnone : ∀ d ∈ s.used, ∀ unitno, ¬Denotes d devnm unitno :=
      fun d hd unitno h => hden ⟨d, hd, unitno, h⟩
    refine Or.inr ⟨hnone, (herror fun d u hf => ?_).resolve_left fun ⟨d, hd, unitno, h, _⟩ =>
      hnone d hd unitno h⟩
    -- what is found is a device with its name in front
    obtain ⟨hd, hname, hunit, hle⟩ := findDev_ok hf
    exfalso
    rcases exists_split devnm with hnd | ⟨p, cs, rfl, hp, hcs⟩
    · rw [phydevnm_noDigit hnd] at hname
      exact hnone d hd 0 (Or.inl ⟨hname.symm, rfl⟩)
    · have hshort : cs.length ≤ 8 := by
        rw [List.length_append] at hlen
        exact (Nat.le_add_left _ _).trans hlen
      rw [phydevnm_append hp hcs hshort] at hname hunit
      dsimp only at hname hunit
      subst hname hunit
      have hdig := plain.digits d hd cs hp hcs rfl (by omega)
      obtain ⟨c, cs, rfl, -⟩ := hcs
      exact hnone d hd _ (Or.inr ⟨c :: cs, List.cons_ne_nil c cs, hdig, rfl,
        (Int.add_sub_cancel _ _).symm, hle⟩)

/-- **Names of devices.** The calls see a name rightly if and only if the condition holds. -/
theorem devNames_iff (run : DevTblRun s) (hlen : devnm.length ≤ L_DEVNM) :
    NamesRight s devnm ↔ PlainName s devnm := by
  have inv := run.inv
  constructor
  · intro right
    refine ⟨fun d hd unitno h => ?_, fun d hd cs hno hcs e hlt => ?_⟩
    · -- the call tells which device it has found
      have hcall := (right.accepted d hd unitno h).2 fun x _ => .ok (if x = d then 1 else 0)
      cases hf : s.findDev devnm with
      | error ercd =>
        rw [(calls_of_error hf).2] at hcall
        cases hcall
      | ok r =>
        obtain ⟨d', u⟩ := r
        rw [(calls_of_ok hf).2] at hcall
        have heq := Except.ok.inj hcall
        rw [if_pos rfl] at heq
        by_cases hdd : d' = d
        · exact hdd ▸ (findDev_ok hf).2.1 ▸ noDigit_phydevnm devnm
        · rw [if_neg hdd] at heq
          exact absurd heq (by decide)
    · subst e
      have hshort : cs.length ≤ 8 := by
        rw [List.length_append] at hlen
        exact (Nat.le_add_left _ _).trans hlen
      have hf := inv.findDev_digit hno hcs hshort hd
      rw [if_neg (by omega)] at hf
      by_contra hdig
      by_cases hden : ∃ d' ∈ s.used, ∃ unitno, Denotes d' (d.devnm ++ cs) unitno
      · obtain ⟨d', hd', unitno, h⟩ := hden
        have hcall := (right.accepted d' hd' unitno h).2 fun x _ => .ok (if x = d' then 1 else 0)
        rw [(calls_of_ok hf).2] at hcall
        have heq := Except.ok.inj hcall
        rw [if_pos rfl] at heq
        by_cases hdd : d = d'
        · subst hdd
          rcases h with ⟨e, -⟩ | ⟨ds, -, hds, e, -⟩
          · obtain ⟨c, cs', rfl, -⟩ := hcs
            exact absurd (List.append_right_eq_self.mp e) (List.cons_ne_nil c cs')
          · rw [List.append_cancel_left e] at hdig
            exact hdig hds
        · rw [if_neg hdd] at heq
          exact absurd heq (by decide)
      · have := (right.refused fun d' hd' unitno h => hden ⟨d', hd', unitno, h⟩).2 fun _ _ => .ok 0
        rw [(calls_of_ok hf).2] at this
        cases this
  · intro plain
    have hfind := inv.findDev_plain hlen plain
    refine ⟨fun d hd e unitno h0 hle => ?_, fun d hd unitno h => ?_, fun hnone => ?_,
      fun devid nsub unitno h => ?_⟩
    · subst e
      exact phydevnm_logdevnm (plain.letters d hd 0 (Or.inl ⟨rfl, rfl⟩)) h0
        (hle.trans (inv.nsub d hd).2)
    · have hno := plain.letters d hd unitno h
      refine calls_of_ok ?_
      rcases h with ⟨rfl, rfl⟩ | ⟨ds, hne, hdig, rfl, hnum, hle⟩
      · exact inv.findDev_noDigit hno hd rfl
      · have hshort : ds.length ≤ 8 := by
          rw [List.length_append] at hlen
          exact (Nat.le_add_left _ _).trans hlen
        rw [inv.findDev_digit hno (digitHead_of hne hdig) hshort hd, if_neg (by omega), hnum,
          Int.sub_add_cancel]
    · exact calls_of_error ((hfind.resolve_left fun ⟨d, hd, unitno, h, _⟩ => hnone d hd unitno h).2)
    · rcases hfind with ⟨d, hd, u, hden, hf⟩ | ⟨-, hf⟩
      · rw [(calls_of_ok hf).1] at h
        obtain ⟨-, hrest⟩ := Prod.mk.inj (Except.ok.inj h)
        obtain ⟨rfl, rfl⟩ := Prod.mk.inj hrest
        exact hden.bounds inv hd
      · rw [(calls_of_error hf).1] at h
        cases h

/-- The device `hda` with two subunits. -/
def hdTbl : DevTbl := ⟨[⟨0, [0x68, 0x64, 0x61], 2⟩], [1]⟩

theorem hdTbl_run : DevTblRun hdTbl :=
  (DevTblRun.init 2).step ⟨E_OK, [0x68, 0x64, 0x61], some (E_OK, 2), E_OK, false⟩

/-- The name `hda1`. -/
theorem devNames_iff_hda1 :
    NamesRight hdTbl [0x68, 0x64, 0x61, 0x31] ↔ PlainName hdTbl [0x68, 0x64, 0x61, 0x31] :=
  devNames_iff hdTbl_run (by decide)

/-- `hda0-` is found as unit -2 of `hda`, with the identifier of a unit of another device. -/
theorem devNames_wrong :
    hdTbl.tkRefDev E_OK [0x68, 0x64, 0x61, 0x30, 0x2d] =
      .ok (DevReg.DEVID ⟨0, [0x68, 0x64, 0x61], 2⟩ (-2), 2, -2) ∧
      ¬NamesRight hdTbl [0x68, 0x64, 0x61, 0x30, 0x2d] := by
  have h : hdTbl.tkRefDev E_OK [0x68, 0x64, 0x61, 0x30, 0x2d] =
      .ok (DevReg.DEVID ⟨0, [0x68, 0x64, 0x61], 2⟩ (-2), 2, -2) := by decide
  refine ⟨h, fun right => ?_⟩
  have := (right.bounds _ _ _ h).1
  exact absurd this (by decide)

end SmpTKernel
