import SmpTKernel.DomainIds
import SmpTKernel.ObjectName

/-!
# Names are unique and found

A key is a function of the name and the number of the domain, so the search by keys and `strncmp`
finds the objects with the name in the domain and no others, collisions or not. Beside that the
invariant says that there is at most one, and that a key is there for a live object with a name
only: what is left of a name in a free control block has no key. `tk_del_dom` can delete the kernel
domain, by another ID of it; then no search for the names in it succeeds.
-/

namespace SmpTKernel

/-! ## Names in arrays -/

/-- What the array has before the first NUL. -/
def nameFrom (b : Bytes) : ℕ → ℕ → List UB
  | 0, _ => []
  | n + 1, i => if b i = 0 then [] else b i :: nameFrom b n (i + 1)

def nameOf (b : Bytes) : List UB := nameFrom b OBJECT_NAME_LENGTH 0

def hashOf (name : List UB) : ℕ := name.foldl (fun hash c => (hash * 17 + c.toNat) % 2 ^ 16) 0

section Strings

variable {b b' src dst s1 s2 : Bytes} {n i j : ℕ}

theorem calcHashFrom_eq (hash : ℕ) : calcHashFrom b n i hash =
    (i + (nameFrom b n i).length, (nameFrom b n i).foldl (fun hash c =>
      (hash * 17 + c.toNat) % 2 ^ 16) hash) := by
  induction n generalizing i hash with
  | zero => rfl
  | succ n ih =>
    unfold calcHashFrom nameFrom
    split_ifs with h
    · rfl
    · rw [ih, List.length_cons, List.foldl_cons]
      congr 1
      omega

theorem calcHash_eq (b : Bytes) : calcHash b = ((nameOf b).length, hashOf (nameOf b)) := by
  unfold calcHash
  rw [calcHashFrom_eq, Nat.zero_add]
  rfl

theorem hashOf_lt (name : List UB) : hashOf name < 2 ^ 16 := by
  have h (l : List UB) : ∀ hash, hash < 2 ^ 16 →
      l.foldl (fun hash c => (hash * 17 + c.toNat) % 2 ^ 16) hash < 2 ^ 16 := by
    induction l with
    | nil => exact fun _ h => h
    | cons c l ih => exact fun hash _ => ih _ (Nat.mod_lt _ (by decide))
  exact h name 0 (by decide)

theorem toNat_sub_eq_zero (x y : UB) : (x.toNat : ℤ) - (y.toNat : ℤ) = 0 ↔ x = y := by
  rw [sub_eq_zero, Nat.cast_inj]
  exact ⟨BitVec.eq_of_toNat_eq, congrArg _⟩

theorem strncmpFrom_eq_zero : strncmpFrom s1 s2 n i = 0 ↔ nameFrom s1 n i = nameFrom s2 n i := by
  induction n generalizing i with
  | zero =>
    unfold strncmpFrom nameFrom
    simp
  | succ n ih =>
    unfold strncmpFrom nameFrom
    by_cases h1 : s1 i = 0
    · rw [if_neg (not_not.mpr h1), if_pos (Nat.succ_ne_zero n), if_pos h1, toNat_sub_eq_zero, h1]
      by_cases h2 : s2 i = 0
      · simp [h2]
      · rw [if_neg h2]
        exact iff_of_false (Ne.symm h2) nofun
    · rw [if_pos h1, if_neg h1]
      dsimp only
      by_cases he : s1 i = s2 i
      · rw [if_neg (not_not.mpr ((toNat_sub_eq_zero _ _).mpr he)), ih, ← he, if_neg h1]
        simp
      · rw [if_pos fun h => he ((toNat_sub_eq_zero _ _).mp h), toNat_sub_eq_zero]
        refine iff_of_false he fun h => ?_
        split_ifs at h
        exact he (List.cons.inj h).1

theorem strncmp_eq_zero : strncmp s1 s2 OBJECT_NAME_LENGTH = 0 ↔ nameOf s1 = nameOf s2 :=
  strncmpFrom_eq_zero

theorem strncpyPad_of_lt (h : j < i) : strncpyPad n i dst j = dst j := by
  induction n generalizing i dst with
  | zero => rfl
  | succ n ih =>
    unfold strncpyPad
    rw [ih (by omega), Function.update_of_ne (by omega)]

theorem strncpyFrom_of_lt (h : j < i) : strncpyFrom src n i dst j = dst j := by
  induction n generalizing i dst with
  | zero => rfl
  | succ n ih =>
    unfold strncpyFrom
    dsimp only
    split_ifs
    · rw [ih (by omega), Function.update_of_ne (by omega)]
    · rw [strncpyPad_of_lt (by omega), Function.update_of_ne (by omega)]

theorem nameFrom_strncpyFrom : nameFrom (strncpyFrom src n i dst) n i = nameFrom src n i := by
  induction n generalizing i dst with
  | zero => rfl
  | succ n ih =>
    have hi : strncpyFrom src (n + 1) i dst i = src i := by
      unfold strncpyFrom
      dsimp only
      split_ifs
      · rw [strncpyFrom_of_lt (Nat.lt_succ_self i), Function.update_self]
      · rw [strncpyPad_of_lt (Nat.lt_succ_self i), Function.update_self]
    unfold nameFrom
    rw [hi]
    by_cases h : src i = 0
    · rw [if_pos h, if_pos h]
    · rw [if_neg h, if_neg h]
      have : strncpyFrom src (n + 1) i dst = strncpyFrom src n (i + 1) (Function.update dst i
          (src i)) := by
        conv_lhs => unfold strncpyFrom
        exact if_pos h
      rw [this, ih]

theorem nameOf_strncpy (dst src : Bytes) :
    nameOf (strncpy dst src OBJECT_NAME_LENGTH) = nameOf src :=
  nameFrom_strncpyFrom

end Strings

/-! ## Keys -/

/-- The key of the name in the domain `d`. -/
def nameKey (d : ℕ) (name : List UB) : ℕ := 2 ^ 31 + d * 2 ^ 16 + hashOf name

theorem MAKE_HASH_KEY_eq {domid : ID} (hd : GET_OBJID domid < 2 ^ 8) (b : Bytes) :
    MAKE_HASH_KEY domid (calcHash b).2 = nameKey (GET_OBJID domid) (nameOf b) := by
  have hlt := hashOf_lt (nameOf b)
  have hdvd : 2 ^ 16 ∣ 2 ^ 31 + GET_OBJID domid * 2 ^ 16 :=
    Nat.dvd_add (by decide) (Nat.dvd_mul_left _ _)
  unfold MAKE_HASH_KEY nameKey
  rw [calcHash_eq, MP_GEN_DOMIDPART_eq hd, show HASH_ENABLE_BIT = 2 ^ 31 from rfl,
    Words.mul_or_low (Nat.dvd_refl (2 ^ 31)) (by omega), Words.mul_or_low hdvd hlt]

theorem nameKey_inj {d d' : ℕ} {name name' : List UB} (h : nameKey d name = nameKey d' name') :
    d = d' := by
  have := hashOf_lt name
  have := hashOf_lt name'
  unfold nameKey at h
  omega

/-! ## The invariant -/

variable {cfg : DomCfg} {s s' : NameState} {t : ObjType} {i j d : ℕ} {o : ObjType × ℕ}
  {name : List UB} {id domid : ID} {domid' : Option ID} {oname : Bytes} {c : Caller} {atr : ℕ}

/-- The object `i` of its kind has this name, in the domain `d`. -/
structure Named (s : NameState) (t : ObjType) (i d : ℕ) (name : List UB) : Prop where
  live : Live s.dom (t, i)
  dom : domOf s.dom (t, i) = d
  name : nameOf (s.oname (t, i)) = name

structure NameInv (s : NameState) : Prop where
  key : ∀ o, s.key o =
    if Live s.dom o ∧ nameOf (s.oname o) ≠ [] then nameKey (domOf s.dom o) (nameOf (s.oname o))
    else 0
  unique : ∀ t i j d name, name ≠ [] → Named s t i d name → Named s t j d name → i = j

theorem NameInv.key_iff (inv : NameInv s) (hn : name ≠ []) :
    s.key (t, i) = nameKey d name ∧ nameOf (s.oname (t, i)) = name ↔ Named s t i d name := by
  rw [inv.key]
  constructor
  · rintro ⟨hkey, hname⟩
    by_cases h : Live s.dom (t, i) ∧ nameOf (s.oname (t, i)) ≠ []
    · rw [if_pos h] at hkey
      exact ⟨h.1, nameKey_inj hkey, hname⟩
    · rw [if_neg h] at hkey
      unfold nameKey at hkey
      omega
  · rintro ⟨hl, hd, hname⟩
    rw [if_pos ⟨hl, hname ▸ hn⟩, hd, hname]
    exact ⟨rfl, rfl⟩

theorem NameInv.findKey_iff (inv : NameInv s) (dinv : DomInv cfg s.dom) (hn : nameOf oname ≠ []) :
    s.findKey cfg t (nameKey d (nameOf oname)) oname = some i ↔ Named s t i d (nameOf oname) := by
  unfold NameState.findKey
  generalize hp : (fun k => decide (s.key (t, k) = nameKey d (nameOf oname) ∧
    strncmp (s.oname (t, k)) oname OBJECT_NAME_LENGTH = 0)) = p
  have hp (k : ℕ) : p k = true ↔ Named s t k d (nameOf oname) := by
    rw [← hp, decide_eq_true_iff, strncmp_eq_zero, inv.key_iff hn]
  constructor
  · intro h
    exact (hp i).mp (List.find?_some h)
  · intro h
    cases hf : (List.range (cfg.num t)).find? p with
    | none =>
      have hi := (dinv.id t i h.live).1
      exact absurd ((hp i).mpr h) (List.find?_eq_none.mp hf i (List.mem_range.mpr hi))
    | some k => rw [inv.unique t k i d _ hn ((hp k).mp (List.find?_some hf)) h]

theorem NameInv.searchHashcb_iff (inv : NameInv s) (dinv : DomInv cfg s.dom)
    (hd : GET_OBJID domid < 2 ^ 8) :
    s.searchHashcb cfg t domid oname = some i ↔
      nameOf oname ≠ [] ∧ Named s t i (GET_OBJID domid) (nameOf oname) := by
  have hkey := MAKE_HASH_KEY_eq hd oname
  unfold NameState.searchHashcb
  rw [calcHash_eq] at hkey ⊢
  dsimp only at hkey ⊢
  by_cases hn : nameOf oname = []
  · simp [hn]
  · rw [if_pos (by simpa using hn), hkey, inv.findKey_iff dinv hn]
    exact (and_iff_right hn).symm

theorem NameInv.existence_iff (inv : NameInv s) (dinv : DomInv cfg s.dom)
    (hd : GET_OBJID domid < 2 ^ 8) :
    s.mpExistenceCheckOfOname cfg t domid oname = E_OK ↔
      ∀ i, nameOf oname ≠ [] → ¬Named s t i (GET_OBJID domid) (nameOf oname) := by
  unfold NameState.mpExistenceCheckOfOname
  rcases hf : s.searchHashcb cfg t domid oname with _ | i
  · refine iff_of_true (if_pos rfl) fun i hn h => ?_
    rw [(inv.searchHashcb_iff dinv hd).mpr ⟨hn, h⟩] at hf
    cases hf
  · refine iff_of_false ?_ fun h => ?_
    · rw [if_neg nofun]
      decide
    · obtain ⟨hn, hnamed⟩ := (inv.searchHashcb_iff dinv hd).mp hf
      exact h i hn hnamed

theorem mpExistenceCheckOfOname_cases : s.mpExistenceCheckOfOname cfg t domid oname = E_OK ∨
    s.mpExistenceCheckOfOname cfg t domid oname = E_ONAME := by
  unfold NameState.mpExistenceCheckOfOname
  split_ifs
  · exact Or.inl rfl
  · exact Or.inr rfl

/-! ## Steps -/

theorem NameInv.congr (inv : NameInv s) (hid : ∀ o, (s'.dom.cb o).id = (s.dom.cb o).id)
    (hkey : s'.key = s.key) (hname : s'.oname = s.oname) : NameInv s' := by
  have hlive (o : ObjType × ℕ) : Live s'.dom o ↔ Live s.dom o := by
    unfold Live
    rw [hid]
  have hdom (o : ObjType × ℕ) : domOf s'.dom o = domOf s.dom o := congrArg GET_DOMID (hid o)
  have hnamed {t : ObjType} {i d : ℕ} {name : List UB} (h : Named s' t i d name) :
      Named s t i d name :=
    ⟨(hlive _).mp h.live, (hdom _).symm.trans h.dom,
      (congrArg (fun f => nameOf (f (t, i))) hname).symm.trans h.name⟩
  refine ⟨fun o => ?_, fun t i j d name hn hi hj => inv.unique t i j d name hn (hnamed hi)
    (hnamed hj)⟩
  rw [hkey, hname, hdom, inv.key]
  simp only [hlive]

/-- The object gets a name that nobody has in its domain, or none. -/
theorem NameInv.put (inv : NameInv s) (cb : ObjCb) (oname : Bytes)
    (hcb : s'.dom.cb = Function.update s.dom.cb (t, i) cb) (hid : cb.id ≠ 0)
    (hkey : s'.key = Function.update s.key (t, i)
      (if nameOf oname = [] then 0 else nameKey (GET_DOMID cb.id) (nameOf oname)))
    (hname : s'.oname = Function.update s.oname (t, i) (strncpy (s.oname (t, i)) oname
      OBJECT_NAME_LENGTH))
    (hnew : ∀ j, nameOf oname ≠ [] → ¬Named s t j (GET_DOMID cb.id) (nameOf oname)) :
    NameInv s' := by
  have hself : Live s'.dom (t, i) ∧ domOf s'.dom (t, i) = GET_DOMID cb.id ∧
      nameOf (s'.oname (t, i)) = nameOf oname := by
    unfold Live domOf
    rw [hcb, hname, Function.update_self, Function.update_self, nameOf_strncpy]
    exact ⟨hid, rfl, rfl⟩
  have hother {o : ObjType × ℕ} (ho : o ≠ (t, i)) : (Live s'.dom o ↔ Live s.dom o) ∧
      domOf s'.dom o = domOf s.dom o ∧ s'.oname o = s.oname o ∧ s'.key o = s.key o := by
    refine ⟨live_update hcb ho, domOf_update hcb ho, ?_, ?_⟩
    · rw [hname, Function.update_of_ne ho]
    · rw [hkey, Function.update_of_ne ho]
  have hold {t' : ObjType} {j d : ℕ} {name : List UB} (ho : (t', j) ≠ (t, i))
      (h : Named s' t' j d name) :
      Named s t' j d name := by
    obtain ⟨hl, hd, hn, -⟩ := hother ho
    exact ⟨hl.mp h.live, hd.symm.trans h.dom, (congrArg nameOf hn).symm.trans h.name⟩
  have hnot {j d : ℕ} {name : List UB} (hne : name ≠ []) (hji : j ≠ i) (hi : Named s' t i d name) :
      ¬Named s' t j d name := by
    intro hj
    have hj := hold (fun e => hji (Prod.mk.inj e).2) hj
    rw [← hi.name, hself.2.2, ← hi.dom, hself.2.1] at hj
    exact hnew j (by rw [← hself.2.2, hi.name]; exact hne) hj
  refine ⟨fun o => ?_, fun t' j k d name hne hj hk => ?_⟩
  · by_cases ho : o = (t, i)
    · rw [ho, hself.2.1, hself.2.2, hkey, Function.update_self]
      by_cases hn : nameOf oname = []
      · rw [if_pos hn, if_neg fun h => h.2 hn]
      · rw [if_neg hn, if_pos ⟨hself.1, hn⟩]
    · obtain ⟨hl, hd, hn, hk⟩ := hother ho
      rw [hk, hd, hn, inv.key]
      simp only [hl]
  · by_cases hj' : (t', j) = (t, i)
    · obtain ⟨rfl, rfl⟩ := Prod.mk.inj hj'
      by_contra hne'
      exact hnot hne (Ne.symm hne') hj hk
    · by_cases hk' : (t', k) = (t, i)
      · obtain ⟨rfl, rfl⟩ := Prod.mk.inj hk'
        by_contra hne'
        exact hnot hne hne' hk hj
      · exact inv.unique t' j k d name hne (hold hj' hj) (hold hk' hk)

theorem NameInv.drop (inv : NameInv s)
    (hcb : s'.dom.cb = Function.update s.dom.cb o ⟨0, 0, false, 0⟩)
    (hkey : s'.key = Function.update s.key o 0) (hname : s'.oname = s.oname) : NameInv s' := by
  have hself : ¬Live s'.dom o := by
    unfold Live
    rw [hcb, Function.update_self]
    exact not_not.mpr rfl
  have hold {t : ObjType} {j d : ℕ} {name : List UB} (h : Named s' t j d name) :
      Named s t j d name := by
    have ho : (t, j) ≠ o := fun e => hself (e ▸ h.live)
    refine ⟨(live_update hcb ho).mp h.live, (domOf_update hcb ho).symm.trans h.dom, ?_⟩
    rw [← hname]
    exact h.name
  refine ⟨fun o' => ?_, fun t j k d name hne hj hk => inv.unique t j k d name hne (hold hj)
    (hold hk)⟩
  by_cases ho : o' = o
  · rw [ho, hkey, Function.update_self, if_neg fun h => hself h.1]
  · rw [hkey, Function.update_of_ne ho, hname, domOf_update hcb ho, inv.key]
    simp only [live_update hcb ho]

theorem checkOname_cases (cfg : DomCfg) (s : NameState) (t : ObjType) (domid' : Option ID) (atr : ℕ)
    (oname : Bytes) :
    s.checkOname cfg t domid' atr oname = E_OK ∨ s.checkOname cfg t domid' atr oname = E_ONAME := by
  unfold NameState.checkOname
  split_ifs
  · exact mpExistenceCheckOfOname_cases
  · exact Or.inl rfl

theorem registerName_eq (s : NameState) (hd : GET_OBJID domid < 2 ^ 8) (o : ObjType × ℕ) :
    s.registerName domid o oname =
      s.setKey o (if nameOf oname = [] then 0 else nameKey (GET_OBJID domid) (nameOf oname)) := by
  have hkey := MAKE_HASH_KEY_eq hd oname
  unfold NameState.registerName
  rw [calcHash_eq] at hkey ⊢
  dsimp only at hkey ⊢
  rw [hkey]
  simp only [List.length_eq_zero_iff]

/-- The name a new object gets. -/
def newName (atr : ℕ) (oname : Bytes) : Bytes :=
  if atr &&& TA_ONAME ≠ 0 then oname else defaultObjectName

theorem nameOf_default : nameOf defaultObjectName = [] := rfl

theorem NameInv.created (inv : NameInv s) (dinv : DomInv cfg s.dom) (fits : cfg.Fits)
    {r : DomState × Option ℤ}
    (h : Created cfg s.dom t domid' (s.checkOname cfg t domid' atr oname) r) :
    NameInv (s.created t domid' atr oname r).1 := by
  unfold NameState.created
  cases h with
  | failed v hv =>
    cases v with
    | none => exact inv
    | some v =>
      have hneg : v < E_OK := by
        rcases hv v rfl with hv | ⟨hv, hne⟩
        · exact hv
        · rw [hv, (checkOname_cases cfg s t domid' atr oname).resolve_left hne]
          decide
      dsimp only
      rw [if_pos hneg]
      exact inv
  | @made s' i rest cb hfree hok hd hcb hid hstk hfree' =>
    have hi : i < cfg.num t := ((dinv.free t).2 i (by simp [hfree])).1
    have hidof : IdOf cfg t i cb.id := hid ▸ IdOf.newId fits hi hd
    have hd8 := hd.trans_lt fits.dom
    have hpart : GET_DOMID cb.id = GET_OBJID (domid'.getD MP_KDMID) := by
      have := fits.num_le t
      rw [hid, newId_eq fits hd8 hi]
      exact GET_DOMID_newId hd8 (by omega)
    dsimp only
    rw [if_neg (not_lt.mpr (Int.natCast_nonneg _)), Int.toNat_natCast, hidof.index fits]
    refine inv.put cb (newName atr oname) hcb hidof.ne_zero ?_ rfl ?_
    · rw [hpart]
      exact congrArg NameState.key (registerName_eq _ hd8 _)
    · intro j hn
      rw [hpart]
      unfold newName at hn ⊢
      unfold NameState.checkOname at hok
      split_ifs at hn hok ⊢
      · exact (inv.existence_iff dinv hd8).mp hok j hn
      · exact absurd nameOf_default hn

theorem NameInv.deleted (inv : NameInv s) {r : DomState × Option ℤ} (h : Deleted s.dom t i id r) :
    NameInv (s.deleted (t, i) r).1 := by
  unfold NameState.deleted
  cases h with
  | failed v hv =>
    dsimp only
    rw [if_neg hv]
    exact inv
  | gone _ _ hcb _ =>
    dsimp only
    rw [if_pos rfl]
    exact inv.drop hcb rfl rfl

theorem rename_key (dinv : DomInv cfg s.dom) (fits : cfg.Fits) (hl : Live s.dom (t, i))
    (hpart : GET_DOMID id = domOf s.dom (t, i)) (oname : Bytes) :
    MAKE_HASH_KEY (mpGetDomidFromId s.dom id) (calcHash oname).2 =
      nameKey (domOf s.dom (t, i)) (nameOf oname) := by
  have hd := dinv.home _ hl
  have hobj : GET_OBJID (mpGetDomidFromId s.dom id) = domOf s.dom (t, i) := by
    rw [dinv.getDomid fits hpart hd, dinv.objid_dom fits hd]
  rw [MAKE_HASH_KEY_eq (by rw [hobj]; exact dinv.dom_lt fits hd), hobj]

theorem NameInv.rename_used (inv : NameInv s) (dinv : DomInv cfg s.dom) (fits : cfg.Fits)
    (hl : Live s.dom (t, i)) (hpart : GET_DOMID id = domOf s.dom (t, i)) (hn : nameOf oname ≠ [])
    (hnamed : Named s t j (domOf s.dom (t, i)) (nameOf oname)) :
    s.mpChangeOname cfg t id oname i = (s, E_ONAME) := by
  have hkey := rename_key dinv fits hl hpart oname
  have hlen : (nameOf oname).length ≠ 0 := by simpa using hn
  unfold NameState.mpChangeOname
  rw [calcHash_eq] at hkey ⊢
  dsimp only at hkey ⊢
  rw [if_pos hlen, hkey, (inv.findKey_iff dinv hn).mpr hnamed, if_pos ⟨hlen, nofun⟩]

theorem NameInv.rename (inv : NameInv s) (dinv : DomInv cfg s.dom) (fits : cfg.Fits)
    (hl : Live s.dom (t, i)) (hpart : GET_DOMID id = domOf s.dom (t, i)) :
    NameInv (s.mpChangeOname cfg t id oname i).1 := by
  have hkey := rename_key dinv fits hl hpart oname
  by_cases hn : nameOf oname = []
  · have hlen : ¬(nameOf oname).length ≠ 0 := by simp [hn]
    unfold NameState.mpChangeOname
    rw [calcHash_eq]
    dsimp only
    rw [if_neg fun h => hlen h.1, if_neg hlen]
    refine inv.put (s.dom.cb (t, i)) oname (Function.update_eq_self _ _).symm hl ?_ rfl
      fun _ h => absurd hn h
    rw [if_pos hn]
    rfl
  by_cases hused : ∃ j, Named s t j (domOf s.dom (t, i)) (nameOf oname)
  · obtain ⟨j, hnamed⟩ := hused
    rw [inv.rename_used dinv fits hl hpart hn hnamed]
    exact inv
  · have hf : s.findKey cfg t (nameKey (domOf s.dom (t, i)) (nameOf oname)) oname = none := by
      cases hf : s.findKey cfg t (nameKey (domOf s.dom (t, i)) (nameOf oname)) oname with
      | none => rfl
      | some j => exact absurd ⟨j, (inv.findKey_iff dinv hn).mp hf⟩ hused
    have hlen : (nameOf oname).length ≠ 0 := by simpa using hn
    unfold NameState.mpChangeOname
    rw [calcHash_eq] at hkey ⊢
    dsimp only at hkey ⊢
    rw [if_pos hlen, hkey, hf, if_neg fun h => h.2 rfl]
    refine inv.put (s.dom.cb (t, i)) oname (Function.update_eq_self _ _).symm hl ?_ rfl
      fun j _ h => hused ⟨j, h⟩
    rw [if_neg hn]
    rfl

/-! ## Runs -/

/-- The calls that create, delete and rename objects, and the dispatcher. -/
inductive NameOp
  | creObj (t : ObjType) (c : Caller) (domid : Option ID) (atr : ℕ) (oname : Bytes)
  | delObj (t : ObjType) (c : Caller) (id : ID)
  | delTsk (c : Caller) (id : ID) (dormant running : Bool)
  | exdTsk (i : ℕ)
  | intoDsp (i : ℕ)
  | creDom (domid : Option ID) (atr : ℕ) (oname : Bytes)
  | delDom (domid : ID)
  | setname (t : ObjType) (c : Caller) (id : ID) (name : Bytes)

namespace NameOp

def run (cfg : DomCfg) (s : NameState) : NameOp → NameState
  | creObj t c domid atr oname => (s.creObj cfg t c domid atr oname).1
  | delObj t c id => (s.delObj cfg t c id).1
  | delTsk c id dormant running => (s.tkDelTsk cfg c id dormant running).1
  | exdTsk i => s.tkExdTsk i
  | intoDsp i => s.intoDsp i
  | creDom domid atr oname => (s.tkCreDom cfg domid atr oname).1
  | delDom domid => (s.tkDelDom cfg domid).1
  | setname t c id name => (s.objectSetname cfg t c id name).1

/-- What the call does to the control blocks. -/
def domOp (cfg : DomCfg) (s : NameState) : NameOp → Option DomOp
  | creObj t c domid atr oname => some (.creObj t c domid atr (s.checkOname cfg t domid atr oname))
  | delObj t c id => some (.delObj t c id)
  | delTsk c id dormant running => some (.delTsk c id dormant running)
  | exdTsk i => some (.exdTsk i)
  | intoDsp i => some (.intoDsp i)
  | creDom domid atr oname => some (.creDom domid atr (s.checkOname cfg .dom domid atr oname))
  | delDom domid => some (.delDom domid)
  | setname .. => none

def Legal (cfg : DomCfg) (s : NameState) (op : NameOp) : Prop := ∀ o ∈ op.domOp cfg s, o.Legal s.dom

/-- The kernel domain is not deleted under another name. -/
def Sound : NameState → NameOp → Prop
  | _, delDom domid => OneName domid
  | _, _ => True

end NameOp

/-- Runs from the start of the system, all steps of which are `ok`. -/
inductive NameRun (cfg : DomCfg) (ok : NameState → NameOp → Prop) : NameState → Prop
  | init (mem : ObjType × ℕ → Bytes) : NameRun cfg ok (NameState.domainInitialize cfg mem)
  | step {s : NameState} (op : NameOp) : NameRun cfg ok s → op.Legal cfg s → ok s op →
      NameRun cfg ok (op.run cfg s)

theorem created_dom (r : DomState × Option ℤ) : (s.created t domid' atr oname r).1.dom = r.1 := by
  unfold NameState.created
  dsimp only
  rcases r.2 with _ | ercd
  · rfl
  · dsimp only
    split_ifs <;> rfl

theorem deleted_dom (r : DomState × Option ℤ) : (s.deleted o r).1.dom = r.1 := by
  unfold NameState.deleted
  dsimp only
  split_ifs <;> rfl

/-- The control block that a renaming looks at. -/
def nameTarget (t : ObjType) (c : Caller) (id : ID) : ℕ :=
  if t = .tsk then NameState.getTcbSelf c id else INDEX t id

theorem objSetname_cases (cfg : DomCfg) (s : NameState) (t : ObjType) (id : ID) (oname : Bytes) :
    (s.objSetname cfg t id oname).1 = s ∨
    Live s.dom (t, INDEX t id) ∧ GET_DOMID id = domOf s.dom (t, INDEX t id) ∧
      s.objSetname cfg t id oname = s.mpChangeOname cfg t id oname (INDEX t id) := by
  unfold NameState.objSetname
  dsimp only
  by_cases hchk : (!cfg.chkId t id) = true
  · rw [if_pos hchk]
    exact .inl rfl
  rw [if_neg hchk]
  by_cases hlive : (s.dom.cb (t, INDEX t id)).id = 0
  · rw [if_pos hlive]
    exact .inl rfl
  rw [if_neg hlive]
  by_cases hpart : (!MP_CMP_DOMIDPART id (s.dom.cb (t, INDEX t id)).id) = true
  · rw [if_pos hpart]
    exact .inl rfl
  rw [if_neg hpart]
  by_cases hatr : (s.dom.cb (t, INDEX t id)).atr &&& TA_ONAME = 0
  · rw [if_pos hatr]
    exact .inl rfl
  rw [if_neg hatr]
  exact .inr ⟨hlive, (MP_CMP_DOMIDPART_iff _ _).mp (by simpa using hpart), rfl⟩

theorem taskSetname_cases (cfg : DomCfg) (s : NameState) (c : Caller) (id : ID) (oname : Bytes) :
    (s.taskSetname cfg c id oname).1 = s ∨
    Live s.dom (.tsk, NameState.getTcbSelf c id) ∧
      s.taskSetname cfg c id oname = s.mpChangeOname cfg .tsk
        (s.dom.cb (.tsk, NameState.getTcbSelf c id)).id oname
        (INDEX .tsk (s.dom.cb (.tsk, NameState.getTcbSelf c id)).id) := by
  unfold NameState.taskSetname
  dsimp only
  by_cases hchk : (!(!c.indp && decide (id = TSK_SELF) || cfg.chkId .tsk id)) = true
  · rw [if_pos hchk]
    exact .inl rfl
  rw [if_neg hchk]
  generalize hcb : s.dom.cb (.tsk, NameState.getTcbSelf c id) = cb
  by_cases hlive : cb.id = 0 ∨ cb.stkfree = true
  · rw [if_pos hlive]
    exact .inl rfl
  rw [if_neg hlive]
  by_cases hpart : id ≠ TSK_SELF ∧ (!MP_CMP_DOMIDPART id cb.id) = true
  · rw [if_pos hpart]
    exact .inl rfl
  rw [if_neg hpart]
  by_cases hatr : cb.atr &&& TA_ONAME = 0
  · rw [if_pos hatr]
    exact .inl rfl
  rw [if_neg hatr]
  exact .inr ⟨fun h => hlive (.inl (hcb ▸ h)), rfl⟩

/-- A renaming is refused, or changes the name of the object, by an ID of its domain. -/
theorem objectSetname_cases (cfg : DomCfg) (s : NameState) (t : ObjType) (c : Caller) (id : ID)
    (oname : Bytes) :
    (s.objectSetname cfg t c id oname).1 = s ∨
    ∃ objid, Live s.dom (t, nameTarget t c id) ∧
      GET_DOMID objid = domOf s.dom (t, nameTarget t c id) ∧
      (INDEX t objid = nameTarget t c id ∨ objid = (s.dom.cb (t, nameTarget t c id)).id) ∧
      s.objectSetname cfg t c id oname = s.mpChangeOname cfg t objid oname (INDEX t objid) := by
  unfold NameState.objectSetname nameTarget
  by_cases ht : t = .tsk
  · subst ht
    rw [if_pos rfl, if_pos rfl]
    rcases taskSetname_cases cfg s c id oname with h | ⟨hl, h⟩
    · exact .inl h
    · exact .inr ⟨_, hl, rfl, .inr rfl, h⟩
  · rw [if_neg ht, if_neg ht]
    rcases objSetname_cases cfg s t id oname with h | ⟨hl, hpart, h⟩
    · exact .inl h
    · exact .inr ⟨id, hl, hpart, .inl rfl, h⟩

theorem mpChangeOname_dom : (s.mpChangeOname cfg t id oname i).1.dom = s.dom := by
  unfold NameState.mpChangeOname
  dsimp only
  split_ifs <;> rfl

theorem NameOp.run_dom (cfg : DomCfg) (s : NameState) (op : NameOp) :
    (op.run cfg s).dom = ((op.domOp cfg s).map fun o => o.run cfg s.dom).getD s.dom := by
  cases op with
  | creObj t c domid atr oname => exact created_dom _
  | delObj t c id => exact deleted_dom _
  | delTsk c id dormant running =>
    show (s.tkDelTsk cfg c id dormant running).1.dom =
      (SmpTKernel.tkDelTsk cfg s.dom c id dormant running).1
    unfold NameState.tkDelTsk
    dsimp only
    split_ifs
    · rfl
    · exact deleted_dom _
  | exdTsk i => rfl
  | intoDsp i =>
    show (s.intoDsp i).dom = SmpTKernel.intoDsp s.dom i
    unfold NameState.intoDsp
    dsimp only
    split_ifs <;> rfl
  | creDom domid atr oname => exact created_dom _
  | delDom domid => exact deleted_dom _
  | setname t c id name =>
    show (s.objectSetname cfg t c id name).1.dom = s.dom
    rcases objectSetname_cases cfg s t c id name with h | ⟨objid, -, -, -, h⟩
    · rw [h]
    · rw [h, mpChangeOname_dom]

theorem DomInv.nameOp (dinv : DomInv cfg s.dom) (fits : cfg.Fits) {op : NameOp}
    (hop : op.Legal cfg s) (hok : op.Sound s) : DomInv cfg (op.run cfg s).dom := by
  rw [NameOp.run_dom]
  cases op with
  | delDom domid =>
    show DomInv cfg (DomOp.run cfg s.dom (.delDom domid))
    exact dinv.run fits (hop _ rfl) hok
  | setname t c id name => exact dinv
  | creObj | delObj | delTsk | exdTsk | intoDsp | creDom => exact dinv.run fits (hop _ rfl) trivial

theorem index_objid (dinv : DomInv cfg s.dom) (fits : cfg.Fits) (hl : Live s.dom (t, i))
    (hidx : INDEX t id = i ∨ id = (s.dom.cb (t, i)).id) : INDEX t id = i := by
  rcases hidx with h | rfl
  · exact h
  · exact (dinv.idOf hl).index fits

theorem NameInv.run (inv : NameInv s) (dinv : DomInv cfg s.dom) (fits : cfg.Fits) {op : NameOp}
    (hop : op.Legal cfg s) : NameInv (op.run cfg s) := by
  cases op with
  | creObj t c domid atr oname => exact inv.created dinv fits (creObj_created _ _ _ _ _ _)
  | delObj t c id => exact inv.deleted (delObj_deleted _ _ _ _)
  | delTsk c id dormant running =>
    have h := tkDelTsk_cases cfg s.dom c id dormant running
    show NameInv (s.tkDelTsk cfg c id dormant running).1
    unfold NameState.tkDelTsk
    dsimp only at h ⊢
    cases running with
    | false => exact inv.deleted (h.1 rfl)
    | true =>
      refine inv.congr (fun o => ?_) rfl rfl
      show ((SmpTKernel.tkDelTsk cfg s.dom c id dormant true).1.cb o).id = _
      generalize SmpTKernel.tkDelTsk cfg s.dom c id dormant true = r at h
      rcases h.2 rfl with _ | _
      · rfl
      · exact setStkfree_id _ _ _
  | exdTsk i => exact inv.drop (tkExdTsk_cb s.dom i) rfl rfl
  | intoDsp i =>
    show NameInv (s.intoDsp i)
    unfold NameState.intoDsp
    dsimp only
    split_ifs with hs
    · refine inv.drop (o := (.tsk, i)) ?_ rfl rfl
      show (SmpTKernel.intoDsp s.dom i).cb = _
      unfold SmpTKernel.intoDsp
      rw [if_pos hs]
      rfl
    · refine inv.congr (fun o => ?_) rfl rfl
      show ((SmpTKernel.intoDsp s.dom i).cb o).id = _
      unfold SmpTKernel.intoDsp
      rw [if_neg hs]
  | creDom domid atr oname => exact inv.created dinv fits (tkCreDom_created _ _ _ _)
  | delDom domid => exact inv.deleted (tkDelDom_deleted _ _)
  | setname t c id name =>
    show NameInv (s.objectSetname cfg t c id name).1
    rcases objectSetname_cases cfg s t c id name with h | ⟨objid, hl, hpart, hidx, h⟩
    · rw [h]
      exact inv
    · rw [h, index_objid dinv fits hl hidx]
      exact inv.rename dinv fits hl hpart

theorem domainInitialize_names (cfg : DomCfg) (mem : ObjType × ℕ → Bytes) :
    NameInv (NameState.domainInitialize cfg mem) := by
  have hlive (o : ObjType × ℕ) (ho : Live (mpDomainInitialize cfg) o) : o = (.dom, 0) := by
    by_contra hne
    unfold Live at ho
    rw [mpDomainInitialize_cb, if_neg hne] at ho
    exact ho rfl
  have hname : nameOf ((NameState.domainInitialize cfg mem).oname (.dom, 0)) = [] := rfl
  refine ⟨fun o => ?_, fun t i j d name hn hi _ => ?_⟩
  · rw [if_neg]
    · rfl
    · rintro ⟨ho, hne⟩
      rw [hlive o ho] at hne
      exact hne hname
  · refine absurd ?_ hn
    rw [← hi.name, hlive _ hi.live]
    exact hname

theorem NameRun.inv (fits : cfg.Fits) (run : NameRun cfg NameOp.Sound s) :
    DomInv cfg s.dom ∧ NameInv s := by
  induction run with
  | init mem => exact ⟨mpDomainInitialize_inv cfg, domainInitialize_names cfg mem⟩
  | step op _ hop hok ih => exact ⟨ih.1.nameOp fits hop hok, ih.2.run ih.1 fits hop⟩

/-! ## What names do -/

/-- The checks of a creation before that of the name. -/
def PreOk (cfg : DomCfg) (s : NameState) (domid : Option ID) (atr : ℕ) : Prop :=
  (MP_GET_PATR atr = TA_PUBLIC ∨ MP_GET_PATR atr = TA_PROTECTED ∨ MP_GET_PATR atr = TA_PRIVATE) ∧
    ∀ d ∈ domid, cfg.chkId .dom d = true ∧ mpExistenceCheckOfDomain s.dom d = E_OK

structure OonamesRight (cfg : DomCfg) (s : NameState) : Prop where
  /-- In each kind and domain a name belongs to at most one object. -/
  unique : ∀ t i j d name, name ≠ [] → Named s t i d name → Named s t j d name → i = j
  /-- The domain of an object is there, to search in. -/
  home : ∀ t i, Live s.dom (t, i) →
    let domid := (s.dom.cb (.dom, domOf s.dom (t, i))).id
    cfg.chkId .dom domid = true ∧ mpExistenceCheckOfDomain s.dom domid = E_OK ∧
      GET_OBJID domid = domOf s.dom (t, i)
  /-- A search finds the object with the name. -/
  found : ∀ t i domid oname, mpExistenceCheckOfDomain s.dom domid = E_OK → nameOf oname ≠ [] →
    Named s t i (GET_OBJID domid) (nameOf oname) →
    s.mpSearchOname cfg t domid oname = (s.dom.cb (t, i)).id
  foundKernel : ∀ t i oname, nameOf oname ≠ [] → Named s t i 0 (nameOf oname) →
    s.mpSearchOname cfg t MP_KDMID_SELF oname = (s.dom.cb (t, i)).id
  /-- So does `tk_fnd_sem` and the like, if the caller may know of the object. -/
  fnd : ∀ t i c domid oname, cfg.chkId .dom domid = true →
    mpExistenceCheckOfDomain s.dom domid = E_OK →
    nameOf oname ≠ [] → Named s t i (GET_OBJID domid) (nameOf oname) →
    s.mpCheckProtectionFnd cfg c (s.dom.cb (t, i)).id (s.dom.cb (t, i)).atr = some E_OK →
    s.tkFnd cfg t c domid oname = some ((s.dom.cb (t, i)).id : ℤ)
  missing : ∀ t domid oname, (∀ i, ¬Named s t i (GET_OBJID domid) (nameOf oname)) →
    s.mpSearchOname cfg t domid oname = E_NOEXS
  empty : ∀ t domid oname, nameOf oname = [] → s.mpSearchOname cfg t domid oname = E_NOEXS
  /-- A creation with a name that is in use changes nothing. -/
  created : ∀ t c domid atr oname i, atr &&& TA_ONAME ≠ 0 → nameOf oname ≠ [] →
    Named s t i (GET_OBJID (domid.getD MP_KDMID)) (nameOf oname) →
    (s.creObj cfg t c domid atr oname).1 = s ∧
      (PreOk cfg s domid atr → (s.creObj cfg t c domid atr oname).2 = some E_ONAME)
  createdDom : ∀ domid atr oname i, atr &&& TA_ONAME ≠ 0 → nameOf oname ≠ [] →
    Named s .dom i (GET_OBJID (domid.getD MP_KDMID)) (nameOf oname) →
    (s.tkCreDom cfg domid atr oname).1 = s ∧
      ((∀ d ∈ domid, cfg.chkId .dom d = true ∧ mpExistenceCheckOfDomain s.dom d = E_OK) →
        (s.tkCreDom cfg domid atr oname).2 = some E_ONAME)
  /-- A name that is in use is not given to another object, nor to its own again. -/
  renamed : ∀ t c id oname i, nameOf oname ≠ [] →
    Named s t i (domOf s.dom (t, nameTarget t c id)) (nameOf oname) →
    (s.objectSetname cfg t c id oname).1 = s ∧
      (cfg.chkId t id = true ∧ GET_DOMID id = domOf s.dom (t, nameTarget t c id) ∨
          t = .tsk ∧ id = TSK_SELF ∧ c.indp = false →
        Live s.dom (t, nameTarget t c id) → (s.dom.cb (t, nameTarget t c id)).stkfree = false →
        (s.dom.cb (t, nameTarget t c id)).atr &&& TA_ONAME ≠ 0 →
        (s.objectSetname cfg t c id oname).2 = E_ONAME)

theorem existence_lt (dinv : DomInv cfg s.dom) (fits : cfg.Fits)
    (h : mpExistenceCheckOfDomain s.dom domid = E_OK) :
    GET_OBJID domid < 2 ^ 8 :=
  dinv.dom_lt fits (existence_live h).1

theorem mpSearchOname_eq (h : mpExistenceCheckOfDomain s.dom domid = E_OK) {r : Option ℕ}
    (hr : s.searchHashcb cfg t domid oname = r) :
    s.mpSearchOname cfg t domid oname = (r.map fun i => ((s.dom.cb (t, i)).id : ℤ)).getD
      E_NOEXS := by
  unfold NameState.mpSearchOname
  dsimp only
  rw [if_neg (not_not.mpr h), hr]
  cases r <;> rfl

theorem NameInv.search_found (inv : NameInv s) (dinv : DomInv cfg s.dom) (fits : cfg.Fits)
    (h : mpExistenceCheckOfDomain s.dom domid = E_OK) (hn : nameOf oname ≠ [])
    (hnamed : Named s t i (GET_OBJID domid) (nameOf oname)) :
    s.mpSearchOname cfg t domid oname = (s.dom.cb (t, i)).id :=
  mpSearchOname_eq h ((inv.searchHashcb_iff dinv (existence_lt dinv fits h)).mpr ⟨hn, hnamed⟩)

theorem NameInv.search_missing (inv : NameInv s) (dinv : DomInv cfg s.dom) (fits : cfg.Fits)
    (hno : ∀ i, nameOf oname ≠ [] → ¬Named s t i (GET_OBJID domid) (nameOf oname)) :
    s.mpSearchOname cfg t domid oname = E_NOEXS := by
  by_cases h : mpExistenceCheckOfDomain s.dom domid = E_OK
  · cases hr : s.searchHashcb cfg t domid oname with
    | none => exact mpSearchOname_eq h hr
    | some i =>
      obtain ⟨hn, hnamed⟩ := (inv.searchHashcb_iff dinv (existence_lt dinv fits h)).mp hr
      exact absurd hnamed (hno i hn)
  · have hnoexs : mpExistenceCheckOfDomain s.dom domid = E_NOEXS := by
      unfold mpExistenceCheckOfDomain at h ⊢
      split_ifs at h ⊢ <;> first | rfl | exact absurd rfl h
    unfold NameState.mpSearchOname
    dsimp only
    rw [if_pos h, hnoexs]

/-- A creation is not accepted with a name that is in use. -/
theorem NameInv.created_self (inv : NameInv s) (dinv : DomInv cfg s.dom) (fits : cfg.Fits)
    (hatr : atr &&& TA_ONAME ≠ 0) (hn : nameOf oname ≠ [])
    (hnamed : Named s t i (GET_OBJID (domid'.getD MP_KDMID)) (nameOf oname))
    {r : DomState × Option ℤ}
    (h : Created cfg s.dom t domid' (s.checkOname cfg t domid' atr oname) r) :
    s.created t domid' atr oname r = (s, r.2) := by
  unfold NameState.created
  cases h with
  | failed v hv =>
    dsimp only
    cases v with
    | none => rfl
    | some v =>
      have hneg : v < E_OK := by
        rcases hv v rfl with hv | ⟨hv, hne⟩
        · exact hv
        · rw [hv, (checkOname_cases cfg s t domid' atr oname).resolve_left hne]
          decide
      dsimp only
      rw [if_pos hneg]
  | made cb hfree hok hd =>
    unfold NameState.checkOname at hok
    rw [if_pos hatr] at hok
    exact absurd hnamed ((inv.existence_iff dinv (hd.trans_lt fits.dom)).mp hok i hn)

/-- The check of the name fails in a domain that is there. -/
theorem NameInv.checkOname_used (inv : NameInv s) (dinv : DomInv cfg s.dom) (fits : cfg.Fits)
    (hatr : atr &&& TA_ONAME ≠ 0) (hn : nameOf oname ≠ [])
    (hnamed : Named s t i (GET_OBJID (domid'.getD MP_KDMID)) (nameOf oname))
    (hdom : ∀ d ∈ domid', cfg.chkId .dom d = true ∧ mpExistenceCheckOfDomain s.dom d = E_OK) :
    s.checkOname cfg t domid' atr oname = E_ONAME := by
  have hd : GET_OBJID (domid'.getD MP_KDMID) < 2 ^ 8 := by
    cases domid' with
    | none => decide
    | some d => exact (chkId_dom (hdom d rfl).1).trans_lt fits.dom
  refine (checkOname_cases cfg s t domid' atr oname).resolve_left fun hok => ?_
  unfold NameState.checkOname at hok
  rw [if_pos hatr] at hok
  exact (inv.existence_iff dinv hd).mp hok i hn hnamed

theorem any_eq_false {p : ID → Bool} (h : ∀ d ∈ domid', p d = false) : ¬domid'.any p = true := by
  cases domid' with
  | none => exact nofun
  | some d => simpa using h d rfl

/-- A renaming that passes the checks. -/
theorem objectSetname_renames
    (hid : cfg.chkId t id = true ∧ GET_DOMID id = domOf s.dom (t, nameTarget t c id) ∨
      t = .tsk ∧ id = TSK_SELF ∧ c.indp = false) (hl : Live s.dom (t, nameTarget t c id))
    (hstk : (s.dom.cb (t, nameTarget t c id)).stkfree = false)
    (hatr : (s.dom.cb (t, nameTarget t c id)).atr &&& TA_ONAME ≠ 0) (oname : Bytes) :
    ∃ objid, GET_DOMID objid = domOf s.dom (t, nameTarget t c id) ∧
      (INDEX t objid = nameTarget t c id ∨ objid = (s.dom.cb (t, nameTarget t c id)).id) ∧
      s.objectSetname cfg t c id oname = s.mpChangeOname cfg t objid oname (INDEX t objid) := by
  unfold NameState.objectSetname
  unfold nameTarget at hid hl hstk hatr ⊢
  by_cases ht : t = .tsk
  · subst ht
    rw [if_pos rfl] at hid hl hstk hatr ⊢
    refine ⟨_, rfl, .inr rfl, ?_⟩
    rw [if_pos rfl]
    unfold NameState.taskSetname
    dsimp only
    rw [if_neg, if_neg (not_or.mpr ⟨hl, by simp [hstk]⟩), if_neg, if_neg hatr]
    · rintro ⟨hself, hcmp⟩
      rcases hid with ⟨-, hpart⟩ | ⟨-, hself', -⟩
      · rw [(MP_CMP_DOMIDPART_iff _ _).mpr hpart] at hcmp
        cases hcmp
      · exact hself hself'
    · rcases hid with ⟨hchk, -⟩ | ⟨-, hself, hindp⟩
      · simp [hchk]
      · simp [hself, hindp]
  · rw [if_neg ht] at hid hl hstk hatr ⊢
    obtain ⟨hchk, hpart⟩ := hid.resolve_right fun h => ht h.1
    refine ⟨id, hpart, .inl rfl, ?_⟩
    rw [if_neg ht]
    unfold NameState.objSetname
    dsimp only
    rw [if_neg (by simp [hchk]), if_neg hl, if_neg (by simp [(MP_CMP_DOMIDPART_iff _ _).mpr hpart]),
      if_neg hatr]

theorem NameInv.onamesRight (inv : NameInv s) (dinv : DomInv cfg s.dom) (fits : cfg.Fits) :
    OonamesRight cfg s where
  unique := inv.unique
  home t i hl := by
    have hd := dinv.home _ hl
    have hid := dinv.idOf hd
    refine ⟨hid.chkId fits, ?_, dinv.objid_dom fits hd⟩
    have hself : domcbId s.dom (s.dom.cb (.dom, domOf s.dom (t, i))).id =
        (s.dom.cb (.dom, domOf s.dom (t, i))).id := by
      unfold domcbId
      rw [hid.index fits]
    unfold mpExistenceCheckOfDomain
    rw [hself, if_neg hd, (MP_CMP_DOMIDPART_iff _ _).mpr rfl, if_neg (by decide)]
  found t i domid oname h hn hnamed := inv.search_found dinv fits h hn hnamed
  foundKernel t i oname hn hnamed := by
    have hex : mpExistenceCheckOfDomain s.dom MP_KDMID_SELF = E_OK := by
      have hself : domcbId s.dom MP_KDMID_SELF = MP_KDMID_SELF := dinv.kernel
      unfold mpExistenceCheckOfDomain
      rw [hself]
      decide
    exact inv.search_found dinv fits hex hn hnamed
  fnd t i c domid oname hchk h hn hnamed hprot := by
    have hfound := inv.search_found dinv fits h hn hnamed
    have hidx : INDEX t (s.dom.cb (t, i)).id = i := (dinv.idOf hnamed.live).index fits
    have hpos : (0 : ℤ) < (s.dom.cb (t, i)).id :=
      Int.natCast_pos.mpr (Nat.pos_of_ne_zero hnamed.live)
    unfold NameState.tkFnd
    dsimp only
    rw [if_neg (by simp [hchk]), hfound, if_pos hpos, Int.toNat_natCast, hidx, hprot]
    rfl
  missing t domid oname hno := inv.search_missing dinv fits fun i _ => hno i
  empty t domid oname hn := inv.search_missing dinv fits fun _ h => absurd hn h
  created t c domid' atr oname i hatr hn hnamed := by
    have hself := inv.created_self dinv fits hatr hn hnamed
      (creObj_created s.dom t c domid' atr (s.checkOname cfg t domid' atr oname))
    refine ⟨congrArg Prod.fst hself, fun ⟨hpatr, hdom⟩ => ?_⟩
    have hname := inv.checkOname_used dinv fits hatr hn hnamed hdom
    refine (congrArg Prod.snd hself).trans ?_
    rw [hname]
    unfold SmpTKernel.creObj
    rw [if_neg (by tauto), if_neg (any_eq_false fun d hd => by simp [(hdom d hd).1]),
      if_neg (any_eq_false fun d hd => by simp [(hdom d hd).2]), if_pos (by decide)]
  createdDom domid' atr oname i hatr hn hnamed := by
    have hself := inv.created_self dinv fits hatr hn hnamed
      (tkCreDom_created s.dom domid' atr (s.checkOname cfg .dom domid' atr oname))
    refine ⟨congrArg Prod.fst hself, fun hdom => ?_⟩
    have hname := inv.checkOname_used dinv fits hatr hn hnamed hdom
    refine (congrArg Prod.snd hself).trans ?_
    rw [hname]
    unfold SmpTKernel.tkCreDom
    rw [if_neg (any_eq_false fun d hd => by simp [(hdom d hd).1]),
      if_neg (any_eq_false fun d hd => by simp [(hdom d hd).2]), if_pos (by decide)]
  renamed t c id oname i hn hnamed := by
    have hcall := objectSetname_cases cfg s t c id oname
    refine ⟨?_, fun hid hl hstk hatr => ?_⟩
    · rcases hcall with h | ⟨objid, hl, hpart, hidx, h⟩
      · exact h
      · rw [h, index_objid dinv fits hl hidx, inv.rename_used dinv fits hl hpart hn hnamed]
    · obtain ⟨objid, hpart, hidx, h⟩ := objectSetname_renames hid hl hstk hatr oname
      rw [h, index_objid dinv fits hl hidx, inv.rename_used dinv fits hl hpart hn hnamed]

/-- In every run in which the kernel domain is not deleted under another name. -/
theorem nameRun_right (fits : cfg.Fits) (run : NameRun cfg NameOp.Sound s) : OonamesRight cfg s :=
  (run.inv fits).2.onamesRight (run.inv fits).1 fits

/-! ## Two runs -/

/-- A name in memory. -/
def text (name : List UB) : Bytes := fun i => name.getD i 0

/-- Two names of full length with one hash. -/
def nameA : Bytes := text [65, 65, 65, 65, 65, 65, 65, 84]
def nameB : Bytes := text [65, 65, 65, 65, 65, 65, 66, 67]

example : calcHash nameA = calcHash nameB := by decide

/-- The search tells them apart; a task names itself anew. -/
theorem nameRun_right_collision :
    let s := (NameOp.creObj .sem intCall none TA_ONAME nameA).run twoOfEach
      (NameState.domainInitialize twoOfEach fun _ => nameB)
    let s := (NameOp.creObj .sem intCall none TA_ONAME nameB).run twoOfEach s
    let s := (NameOp.creObj .tsk intCall none TA_ONAME nameB).run twoOfEach s
    let s := (NameOp.setname .tsk ⟨false, 0, 2⟩ TSK_SELF nameA).run twoOfEach s
    s.mpSearchOname twoOfEach .sem MP_KDMID_SELF nameB = 0x01000002 ∧
      s.mpSearchOname twoOfEach .tsk MP_KDMID_SELF nameA = 0x01000001 ∧
      s.mpSearchOname twoOfEach .tsk MP_KDMID_SELF nameB = E_NOEXS ∧ OonamesRight twoOfEach s := by
  intro s₁ s₂ s₃ s₄
  have creates {s : NameState} {t : ObjType} {oname : Bytes} (ht : t ≠ .dom) :
      (NameOp.creObj t intCall none TA_ONAME oname).Legal twoOfEach s := by
    intro o ho
    cases ho
    exact ht
  have run₁ : NameRun twoOfEach NameOp.Sound s₁ :=
    (NameRun.init _).step _ (creates (by decide)) trivial
  have run₂ : NameRun twoOfEach NameOp.Sound s₂ := run₁.step _ (creates (by decide)) trivial
  have run₃ : NameRun twoOfEach NameOp.Sound s₃ := run₂.step _ (creates (by decide)) trivial
  have run : NameRun twoOfEach NameOp.Sound s₄ :=
    run₃.step (.setname .tsk ⟨false, 0, 2⟩ TSK_SELF nameA)
    (fun _ ho => absurd ho (Option.not_mem_none _)) trivial
  exact ⟨by decide +kernel, by decide +kernel, by decide +kernel, nameRun_right twoOfEach_fits run⟩

/-- The kernel domain is deleted, and a semaphore created in it: nobody finds its name. -/
theorem nameRun_lost :
    ¬∀ cfg s, DomCfg.Fits cfg → NameRun cfg (fun _ _ => True) s → OonamesRight cfg s := by
  intro hall
  let s₁ :=
    (NameOp.delDom 0x11000000).run oneOfEach (NameState.domainInitialize oneOfEach fun _ => nameB)
  let s₂ := (NameOp.creObj .sem intCall none TA_ONAME nameA).run oneOfEach s₁
  have run : NameRun oneOfEach (fun _ _ => True) s₂ :=
    ((NameRun.init _).step _ (fun o ho => by cases ho; trivial) trivial).step _
      (fun o ho => by cases ho; exact nofun) trivial
  have hnamed : Named s₂ .sem 0 0 (nameOf nameA) :=
    ⟨by decide +kernel, by decide +kernel, by decide +kernel⟩
  have hfound := (hall _ _ oneOfEach_fits run).foundKernel .sem 0 nameA (by decide +kernel) hnamed
  have hlost : s₂.mpSearchOname oneOfEach .sem MP_KDMID_SELF nameA = E_NOEXS := by decide +kernel
  rw [hlost] at hfound
  exact absurd hfound (by decide +kernel)

end SmpTKernel
