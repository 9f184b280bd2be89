import SmpTKernel.DeviceNameInv

/-!
# Buffers for names of devices

`phydevnm` and `logdevnm` write the name into a buffer of the caller, which has `L_DEVNM + 1` bytes.
The length of a registered name and the number of its subunits are checked by `tk_def_dev`; nobody
checks the length of the names that `tk_opn_dev` and `tk_ref_dev` are given.
-/

namespace SmpTKernel

/-- The bytes that are written, and where, in this order. -/
abbrev Stores := List (ℕ × UB)

/-- `strcpy`: the characters and the end. -/
def strcpyStores (p : ℕ) : List UB → Stores
  | [] => [(p, 0)]
  | c :: cs => (p, c) :: strcpyStores (p + 1) cs

/-- What `logdevnm` writes to `ldevnm`: `strcpy`, and `strcat` at the end of it. -/
def logdevnmStores (ldevnm : ℕ) (pdevnm : List UB) (unitno : ℤ) : Stores :=
  let copied := strcpyStores ldevnm pdevnm
  if unitno > 0 then
    copied ++ strcpyStores (ldevnm + pdevnm.length) (unitnoLoop (unitno - 1).toNat [])
  else copied

/-- What `phydevnm` writes to `pdevnm`. -/
def phydevnmStores (pdevnm : ℕ) : List UB → Stores
  | [] => [(pdevnm, 0)]
  | c :: ldevnm =>
    if isDigit c then [(pdevnm, 0)] else (pdevnm, c) :: phydevnmStores (pdevnm + 1) ldevnm

/-- What `_tk_ref_dev` and `_tk_opn_dev` write to their buffer at `pdevnm`: `chk` is the result of
the checks before. -/
def findDevStores (chk : ER) (pdevnm : ℕ) (devnm : List UB) : Stores :=
  if chk < E_OK then [] else phydevnmStores pdevnm devnm

/-- Only the `L_DEVNM + 1` bytes at `p` are written. -/
def InBuffer (p : ℕ) (w : Stores) : Prop := ∀ x ∈ w, p ≤ x.1 ∧ x.1 < p + (L_DEVNM + 1)

variable {p q : ℕ} {cs devnm : List UB} {w w' : Stores} {s : DevTbl} {d : DevReg} {unitno : ℤ}

/-! ## The memory afterwards -/

/-- The memory after the bytes are written. -/
def storeAll (mem : Bytes) (w : Stores) : Bytes :=
  w.foldl (fun mem x => Function.update mem x.1 x.2) mem

/-- There is this string at `p`. -/
def HasString (mem : Bytes) : ℕ → List UB → Prop
  | p, [] => mem p = 0
  | p, c :: cs => mem p = c ∧ HasString mem (p + 1) cs

theorem storeAll_strcpy_of_lt (mem : Bytes) (h : q < p) :
    storeAll mem (strcpyStores p cs) q = mem q := by
  induction cs generalizing mem p with
  | nil => exact Function.update_of_ne h.ne _ _
  | cons c cs ih =>
    rw [strcpyStores, storeAll, List.foldl_cons]
    refine (ih _ (by omega)).trans ?_
    exact Function.update_of_ne h.ne _ _

/-- The loop of `phydevnm` copies what is in front of the first digit. -/
theorem phydevnmStores_eq (p : ℕ) (devnm : List UB) :
    phydevnmStores p devnm = strcpyStores p (devnm.takeWhile fun c => !isDigit c) := by
  induction devnm generalizing p with
  | nil => rfl
  | cons c cs ih =>
    rw [phydevnmStores]
    by_cases h : isDigit c = true
    · rw [if_pos h, List.takeWhile_cons_of_neg (by simp [h])]
      rfl
    · rw [if_neg h, List.takeWhile_cons_of_pos (by simp [h]), ih]
      rfl

/-! ## Bounds -/

theorem mem_strcpyStores {x : ℕ × UB} (h : x ∈ strcpyStores p cs) :
    p ≤ x.1 ∧ x.1 ≤ p + cs.length := by
  induction cs generalizing p with
  | nil =>
    obtain rfl := List.mem_singleton.mp h
    exact ⟨le_rfl, le_rfl⟩
  | cons c cs ih =>
    rw [List.length_cons]
    rcases List.mem_cons.mp h with rfl | h
    · exact ⟨le_rfl, Nat.le_add_right _ _⟩
    · have := ih h
      omega

theorem end_mem_strcpyStores (p : ℕ) (cs : List UB) : (p + cs.length, 0) ∈ strcpyStores p cs := by
  induction cs generalizing p with
  | nil => exact List.mem_singleton.mpr rfl
  | cons c cs ih =>
    have h := ih (p + 1)
    rw [Nat.add_right_comm, Nat.add_assoc] at h
    exact List.mem_cons_of_mem _ h

theorem inBuffer_strcpy_iff : InBuffer p (strcpyStores p cs) ↔ cs.length ≤ L_DEVNM := by
  constructor
  · intro h
    have := (h _ (end_mem_strcpyStores p cs)).2
    omega
  · intro h x hx
    have := mem_strcpyStores hx
    omega

theorem InBuffer.append (h : InBuffer p w) (h' : InBuffer p w') : InBuffer p (w ++ w') := by
  intro x hx
  rcases List.mem_append.mp hx with hx | hx
  · exact h x hx
  · exact h' x hx

/-- The physical name fits if and only if its digits come soon enough. -/
theorem inBuffer_phydevnm_iff :
    InBuffer p (phydevnmStores p devnm) ↔ (devnm.takeWhile fun c => !isDigit c).length ≤
      L_DEVNM := by
  rw [phydevnmStores_eq]
  exact inBuffer_strcpy_iff

/-! ## Logical names of registered devices -/

/-- The digits of the numbers up to `nsub - 1`, as `tk_def_dev` allows for them. -/
def unitDigits (nsub : ℤ) : ℕ :=
  (if nsub > 0 then 1 else 0) + (if nsub > 10 then 1 else 0) + if nsub > 100 then 1 else 0

theorem checkDdev_length {len : ℕ} {chk : ER} {nsub : ℤ}
    (h : ¬DevTbl.checkDdev len (some (chk, nsub)) < E_OK) :
    len + unitDigits nsub ≤ L_DEVNM := by
  unfold DevTbl.checkDdev at h
  dsimp only at h
  split at h
  next hc => exact absurd hc h
  split at h
  · exact absurd (by decide) h
  by_contra hlt
  refine h ((if_pos ?_).trans_lt (by decide))
  unfold unitDigits at hlt
  split_ifs at hlt ⊢ <;> omega

/-- There is room for the logical names of all units. -/
def DevReg.Fits (d : DevReg) : Prop :=
  d.devnm.length + unitDigits d.nsub ≤ L_DEVNM ∧ d.nsub ≤ MAX_UNIT

/-- A device in the table was there before, or has passed the checks. -/
theorem fits_exec (h : ∀ d ∈ s.used, d.Fits) (op : DefDev) : ∀ d ∈ (op.exec s).used, d.Fits := by
  unfold DefDev.exec DevTbl.tkDefDev
  split
  · exact h
  split
  · exact h
  split
  · exact h
  next hddev =>
  split
  · exact h
  split
  · exact h
  next hsearch e =>
    rw [e] at hddev
    split
    · exact h
    next no free _ =>
      intro d hd
      rcases List.mem_append.mp hd with hd | hd
      · exact h d hd
      · obtain rfl := List.mem_singleton.mp hd
        exact ⟨checkDdev_length hddev, (checkDdev_ok hddev).2⟩
  next devcb _ nsub hsearch e =>
    -- the name of the device is the one that is checked
    rw [e] at hddev
    intro d hd
    obtain ⟨d', hd', rfl⟩ := List.mem_map.mp hd
    split_ifs with heq
    · have hname : d'.devnm = op.devnm := heq ▸ (mem_of_searchDevCB hsearch).2
      refine ⟨?_, (checkDdev_ok hddev).2⟩
      show d'.devnm.length + unitDigits nsub ≤ L_DEVNM
      rw [hname]
      exact checkDdev_length hddev
    · exact h d' hd'
  next devcb _ _ =>
    split
    · exact h
    · exact fun d hd => h d (List.mem_of_mem_erase hd)

theorem DevTblRun.fits (run : DevTblRun s) : ∀ d ∈ s.used, d.Fits := by
  induction run with
  | init maxRegDev => exact nofun
  | step op _ ih => exact fits_exec ih op

theorem length_unitnoLoop_le {n k : ℕ} (h : n < 10 ^ (k + 1)) (cp : List UB) :
    (unitnoLoop n cp).length ≤ cp.length + k + 1 := by
  induction k generalizing n cp with
  | zero =>
    rw [unitnoLoop, if_pos (by omega)]
    exact le_rfl
  | succ k ih =>
    rw [unitnoLoop]
    have hdiv : n / 10 < 10 ^ (k + 1) := by
      rw [Nat.div_lt_iff_lt_mul (by decide), ← pow_succ]
      exact h
    split_ifs
    · rw [List.length_cons]
      omega
    · have := ih hdiv (BitVec.ofNat 8 (48 + n % 10) :: cp)
      rw [List.length_cons] at this
      omega

theorem unitDigits_le (h0 : 0 < unitno) (h : unitno ≤ d.nsub) (hmax : d.nsub ≤ MAX_UNIT) :
    (unitnoLoop (unitno - 1).toNat []).length ≤ unitDigits d.nsub := by
  have hM : MAX_UNIT = 255 := rfl
  unfold unitDigits
  by_cases h10 : d.nsub > 10
  · by_cases h100 : d.nsub > 100
    · have := @length_unitnoLoop_le (unitno - 1).toNat 2 (by omega) []
      rw [if_pos (by omega), if_pos h10, if_pos h100]
      exact this
    · have := @length_unitnoLoop_le (unitno - 1).toNat 1 (by omega) []
      rw [if_pos (by omega), if_pos h10, if_neg h100]
      exact this
  · have := @length_unitnoLoop_le (unitno - 1).toNat 0 (by omega) []
    rw [if_pos (by omega), if_neg h10, if_neg (by omega)]
    exact this

/-- The logical name of a registered device or of one of its units fits. -/
theorem DevTblRun.logdevnm_inBuffer (run : DevTblRun s) (hd : d ∈ s.used) (h : unitno ≤ d.nsub) :
    InBuffer p (logdevnmStores p d.devnm unitno) := by
  obtain ⟨hlen, hmax⟩ := run.fits d hd
  have hcopy : InBuffer p (strcpyStores p d.devnm) := inBuffer_strcpy_iff.mpr (by omega)
  unfold logdevnmStores
  by_cases h0 : unitno > 0
  · have hdig := unitDigits_le h0 h hmax
    simp only [if_pos h0]
    refine hcopy.append fun x hx => ?_
    have := mem_strcpyStores hx
    omega
  · simp only [if_neg h0]
    exact hcopy

/-- **Names in buffers.** The names of registered devices and units fit in the buffer; the name that
a caller of `tk_opn_dev` or `tk_ref_dev` gives fits if and only if at most `L_DEVNM` characters
stand in front of its first digit. -/
theorem devNameBuffers_iff (run : DevTblRun s) (devnm : List UB) (p : ℕ) :
    (∀ chk, InBuffer p (findDevStores chk p devnm)) ∧
      (∀ d ∈ s.used, ∀ unitno, 0 ≤ unitno → unitno ≤ d.nsub →
        InBuffer p (logdevnmStores p d.devnm unitno)) ↔
    (devnm.takeWhile fun c => !isDigit c).length ≤ L_DEVNM := by
  constructor
  · rintro ⟨hphy, -⟩
    exact inBuffer_phydevnm_iff.mp (hphy E_OK)
  · intro hlen
    refine ⟨fun chk => ?_, fun d hd unitno _ h => run.logdevnm_inBuffer hd h⟩
    unfold findDevStores
    split_ifs
    · exact nofun
    · exact inBuffer_phydevnm_iff.mpr hlen

/-- The name `hda1`. -/
theorem devNameBuffers_iff_hda1 :
    ((∀ chk, InBuffer 0x1000 (findDevStores chk 0x1000 [0x68, 0x64, 0x61, 0x31])) ∧
      ∀ d ∈ hdTbl.used, ∀ unitno, 0 ≤ unitno → unitno ≤ d.nsub →
        InBuffer 0x1000 (logdevnmStores 0x1000 d.devnm unitno)) ↔
    (List.takeWhile (fun c => !isDigit c) [0x68, 0x64, 0x61, 0x31]).length ≤ L_DEVNM :=
  devNameBuffers_iff hdTbl_run [0x68, 0x64, 0x61, 0x31] 0x1000

/-- The end of the name `abcdefghi` is written behind the buffer. -/
theorem devNameBuffers_overflow :
    ¬∀ chk p devnm, InBuffer p (findDevStores chk p devnm) := by
  intro hall
  have h := hall E_OK 0x1000 [0x61, 0x62, 0x63, 0x64, 0x65, 0x66, 0x67, 0x68, 0x69]
  have hlast := (h (0x1009, 0) (by decide)).2
  exact absurd hlast (by decide)

end SmpTKernel
