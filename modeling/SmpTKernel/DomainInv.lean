import SmpTKernel.Domain
import Mathlib.Data.List.Nodup
import Mathlib.Logic.Function.Iterate

/-!
# The forest of domains and their counts

As long as no domain is deleted by force while something belongs to it, and the kernel domain is not
deleted under another number, every object belongs to a live domain, the parents of the live domains
lead to the kernel domain, and `objcnt` is the number of objects that belong to a domain. Creation
and deletion change one control block and one counter, so that each of the system calls is one of
the two steps `DomInv.put` and `DomInv.drop`.
-/

namespace SmpTKernel

/-- The largest numbers fit in the fields of an ID. -/
structure DomCfg.Fits (cfg : DomCfg) : Prop where
  dom : cfg.max .dom < 2 ^ 8
  all : ∀ t, cfg.max t < 2 ^ 16

/-- The kinds of objects. -/
def ObjType.all : List ObjType :=
  [.tsk, .sem, .flg, .mbx, .mtx, .mbf, .por, .mpf, .mpl, .cyc, .alm, .dom]

theorem ObjType.mem_all (t : ObjType) : t ∈ ObjType.all := by
  cases t <;> decide

/-- All control blocks but that of the kernel domain. -/
def DomCfg.objects (cfg : DomCfg) : List (ObjType × ℕ) :=
  (ObjType.all.flatMap fun t => (List.range (cfg.num t)).map fun i => (t, i)).filter (· ≠ (.dom, 0))

variable {cfg : DomCfg} {s s' : DomState} {o : ObjType × ℕ} {t : ObjType} {i d : ℕ}

theorem DomCfg.mem_objects : o ∈ cfg.objects ↔ o.2 < cfg.num o.1 ∧ o ≠ (.dom, 0) := by
  unfold DomCfg.objects
  rw [List.mem_filter, List.mem_flatMap]
  constructor
  · rintro ⟨⟨t, -, ht⟩, hne⟩
    obtain ⟨i, hi, rfl⟩ := List.mem_map.mp ht
    exact ⟨List.mem_range.mp hi, of_decide_eq_true hne⟩
  · rintro ⟨hi, hne⟩
    exact ⟨⟨o.1, ObjType.mem_all _, List.mem_map.mpr ⟨o.2, List.mem_range.mpr hi, rfl⟩⟩,
      decide_eq_true hne⟩

theorem DomCfg.nodup_objects (cfg : DomCfg) : cfg.objects.Nodup := by
  refine List.Nodup.filter _ (List.nodup_flatMap.mpr ⟨fun t _ => ?_, ?_⟩)
  · exact List.nodup_range.map fun i j h => (Prod.mk.inj h).2
  · have hd : ObjType.all.Pairwise (· ≠ ·) := by decide
    refine hd.imp fun {t t'} hne => ?_
    intro o ho ho'
    obtain ⟨i, -, rfl⟩ := List.mem_map.mp ho
    obtain ⟨j, -, hj⟩ := List.mem_map.mp ho'
    exact hne (Prod.mk.inj hj).1.symm

theorem DomCfg.Fits.num_le (fits : cfg.Fits) (t : ObjType) : cfg.num t + minId t ≤ 2 ^ 16 := by
  have h := fits.all t
  have hm : minId t ≤ 1 := by cases t <;> decide
  unfold DomCfg.num
  omega

theorem DomCfg.Fits.length_objects (fits : cfg.Fits) : cfg.objects.length ≤ 12 * 2 ^ 16 := by
  refine (List.length_filter_le _ _).trans ?_
  rw [List.length_flatMap]
  have hle (n : ℕ)
      (hn : n ∈ ObjType.all.map fun t => ((List.range (cfg.num t)).map fun i => (t, i)).length) :
      n ≤ 2 ^ 16 := by
    obtain ⟨t, -, rfl⟩ := List.mem_map.mp hn
    rw [List.length_map, List.length_range]
    have := fits.num_le t
    omega
  have := List.sum_le_card_nsmul _ _ hle
  rwa [List.length_map] at this

/-! ## Counting -/

theorem countP_change {α : Type*} {l : List α} {x : α} {p q : α → Bool} (nd : l.Nodup) (hx : x ∈ l)
    (h : ∀ y, y ≠ x → q y = p y) : l.countP q + (p x).toNat = l.countP p + (q x).toNat := by
  obtain ⟨a, b, rfl⟩ := List.append_of_mem hx
  have hnd := List.nodup_middle.mp nd
  have hx' := (List.nodup_cons.mp hnd).1
  have ha : a.countP q = a.countP p := List.countP_congr fun y hy => by
    rw [h y fun e => hx' (e ▸ List.mem_append_left b hy)]
  have hb : b.countP q = b.countP p := List.countP_congr fun y hy => by
    rw [h y fun e => hx' (e ▸ List.mem_append_right a hy)]
  rw [List.countP_append, List.countP_append, List.countP_cons, List.countP_cons, ha, hb]
  cases p x <;> cases q x <;> simp <;> omega

/-- There is an object in the control block. -/
def Live (s : DomState) (o : ObjType × ℕ) : Prop := (s.cb o).id ≠ 0

instance (s : DomState) (o : ObjType × ℕ) : Decidable (Live s o) :=
  inferInstanceAs (Decidable (_ ≠ _))

/-- The domain an object belongs to, as its ID says. -/
def domOf (s : DomState) (o : ObjType × ℕ) : ℕ := GET_DOMID (s.cb o).id

/-- The parent of a domain. -/
def parent (s : DomState) (i : ℕ) : ℕ := domOf s (.dom, i)

/-- The number of objects with the domain `d` in their ID. -/
def countIn (cfg : DomCfg) (s : DomState) (d : ℕ) : ℕ :=
  cfg.objects.countP fun o => Live s o ∧ domOf s o = d

theorem countIn_pos (ho : o ∈ cfg.objects) (h : Live s o) : 0 < countIn cfg s (domOf s o) :=
  List.countP_pos_iff.mpr ⟨o, ho, decide_eq_true ⟨h, rfl⟩⟩

theorem countIn_eq_zero (h : countIn cfg s d = 0) (ho : o ∈ cfg.objects) (hl : Live s o) :
    domOf s o ≠ d := by
  have := List.countP_eq_zero.mp h o ho
  rw [decide_eq_true_iff] at this
  exact fun e => this ⟨hl, e⟩

/-- The parents of the domain lead to the kernel domain. -/
inductive Rooted (s : DomState) : ℕ → Prop
  | kernel : Rooted s 0
  | child {i : ℕ} : Live s (.dom, i) → Rooted s (parent s i) → Rooted s i

/-- Domains for which nothing changes on the way to the kernel domain. -/
theorem Rooted.congr {P : ℕ → Prop} (hcb : ∀ j, P j → (s'.cb (.dom, j)).id = (s.cb (.dom, j)).id)
    (hstep : ∀ j, Live s (.dom, j) → P j → P (parent s j)) (h : Rooted s i) (hi : P i) :
    Rooted s' i := by
  induction h with
  | kernel => exact .kernel
  | @child i hl _ ih =>
    refine .child ?_ ?_
    · unfold Live
      rw [hcb i hi]
      exact hl
    · have : parent s' i = parent s i := by
        unfold parent domOf
        rw [hcb i hi]
      rw [this]
      exact ih (hstep i hl hi)

/-! ## The invariant -/

structure DomInv (cfg : DomCfg) (s : DomState) : Prop where
  kernel : (s.cb (.dom, 0)).id = MP_KDMID_SELF
  id : ∀ t i, Live s (t, i) → i < cfg.num t ∧
    (s.cb (t, i)).id = 2 ^ 24 + domOf s (t, i) * 2 ^ 16 + (i + minId t)
  home : ∀ o, Live s o → Live s (.dom, domOf s o)
  rooted : ∀ i, Live s (.dom, i) → Rooted s i
  owner : ∀ o, Live s o → (s.cb o).dom = s.serial (domOf s o)
  serial : ∀ i j, Live s (.dom, i) → Live s (.dom, j) → s.serial i = s.serial j → i = j
  serial_lt : ∀ i, Live s (.dom, i) → s.serial i < s.made
  count : ∀ d, Live s (.dom, d) → s.objcnt d = countIn cfg s d
  free : ∀ t, (s.free t).Nodup ∧ ∀ i ∈ s.free t, i < cfg.num t ∧ ¬Live s (t, i)
  marked : ∀ o, (s.cb o).stkfree = true → Live s o

theorem DomInv.kernel_live (inv : DomInv cfg s) : Live s (.dom, 0) := by
  unfold Live
  rw [inv.kernel]
  decide

theorem DomInv.dom_lt (inv : DomInv cfg s) (fits : cfg.Fits) (hl : Live s (.dom, i)) :
    i < 2 ^ 8 := by
  have h := (inv.id .dom i hl).1
  have hm := fits.dom
  have : cfg.num .dom = cfg.max .dom + 1 := rfl
  omega

theorem DomInv.objid_dom (inv : DomInv cfg s) (fits : cfg.Fits) (hl : Live s (.dom, i)) :
    GET_OBJID (s.cb (.dom, i)).id = i := by
  have hlt := inv.dom_lt fits hl
  rw [GET_OBJID_eq, (inv.id .dom i hl).2]
  show (2 ^ 24 + _ * 2 ^ 16 + (i + 0)) % 2 ^ 16 = i
  omega

/-- The domain that counts an object is the one in its ID. -/
theorem DomInv.index_home (inv : DomInv cfg s) (fits : cfg.Fits) (hl : Live s o) {id : ID}
    (hid : GET_DOMID id = domOf s o) : INDEX .dom (mpGetDomidFromId s id) = domOf s o := by
  have hd := inv.home o hl
  have hlt := inv.dom_lt fits hd
  have hpart : INDEX .dom (domOf s o) = domOf s o := by
    show GET_OBJID _ - 0 = _
    rw [GET_OBJID_eq]
    omega
  unfold mpGetDomidFromId domcbId
  rw [hid, hpart]
  exact inv.objid_dom fits hd

/-! ## One control block changes -/

variable {x : ObjType × ℕ} {c : ObjCb}

theorem live_update (h : s'.cb = Function.update s.cb x c) (hne : o ≠ x) :
    Live s' o ↔ Live s o := by
  unfold Live
  rw [h, Function.update_of_ne hne]

theorem domOf_update (h : s'.cb = Function.update s.cb x c) (hne : o ≠ x) :
    domOf s' o = domOf s o := by
  unfold domOf
  rw [h, Function.update_of_ne hne]

theorem countIn_put (h : s'.cb = Function.update s.cb x c) (hx : x ∈ cfg.objects)
    (hdead : ¬Live s x) (hc : c.id ≠ 0) (d : ℕ) :
    countIn cfg s' d = countIn cfg s d + if GET_DOMID c.id = d then 1 else 0 := by
  have hchange := countP_change (p := fun o => Live s o ∧ domOf s o = d)
    (q := fun o => Live s' o ∧ domOf s' o = d) cfg.nodup_objects hx fun o hne =>
      decide_eq_decide.mpr (and_congr (live_update h hne) (by rw [domOf_update h hne]))
  have hself : s'.cb x = c := by rw [h, Function.update_self]
  have hlive : Live s' x := by
    unfold Live
    rwa [hself]
  have hdom : domOf s' x = GET_DOMID c.id := by
    unfold domOf
    rw [hself]
  have hbefore : (decide (Live s x ∧ domOf s x = d)).toNat = 0 := by
    rw [decide_eq_false fun hc => hdead hc.1]
    rfl
  rw [hbefore] at hchange
  unfold countIn
  split_ifs with hd
  · rw [decide_eq_true (show Live s' x ∧ domOf s' x = d from ⟨hlive, hdom.trans hd⟩)] at hchange
    exact hchange
  · rw [decide_eq_false fun hc => hd (hdom.symm.trans hc.2)] at hchange
    exact hchange

theorem countIn_drop (h : s'.cb = Function.update s.cb x c) (hx : x ∈ cfg.objects)
    (hlive : Live s x) (hc : c.id = 0) (d : ℕ) :
    countIn cfg s' d + (if domOf s x = d then 1 else 0) = countIn cfg s d := by
  have hchange := countP_change (p := fun o => Live s o ∧ domOf s o = d)
    (q := fun o => Live s' o ∧ domOf s' o = d) cfg.nodup_objects hx fun o hne =>
      decide_eq_decide.mpr (and_congr (live_update h hne) (by rw [domOf_update h hne]))
  have hdead : ¬Live s' x := by
    unfold Live
    rw [h, Function.update_self]
    exact not_not.mpr hc
  have hafter : (decide (Live s' x ∧ domOf s' x = d)).toNat = 0 := by
    rw [decide_eq_false fun hc => hdead hc.1]
    rfl
  rw [hafter] at hchange
  unfold countIn
  split_ifs with hd
  · rw [decide_eq_true (show Live s x ∧ domOf s x = d from ⟨hlive, hd⟩)] at hchange
    exact hchange
  · rw [decide_eq_false fun hc => hd hc.2] at hchange
    exact hchange

theorem newId_eq (fits : cfg.Fits) {domid : ID} (hd : GET_OBJID domid < 2 ^ 8)
    (hi : i < cfg.num t) :
    MP_GEN_DOMIDPART domid ||| ID_OF t i = 2 ^ 24 + GET_OBJID domid * 2 ^ 16 + (i + minId t) := by
  have := fits.num_le t
  exact objectId_eq hd (by omega)

theorem GET_DOMID_newId {n : ℕ} (hd : d < 2 ^ 8) (hn : n < 2 ^ 16) :
    GET_DOMID (2 ^ 24 + d * 2 ^ 16 + n) = d := by
  rw [GET_DOMID_eq]
  omega

/-! ## Creation -/

/-- A new object in the control block `i`; if it is a domain, nothing belongs to it yet. -/
structure Adds (s s' : DomState) (t : ObjType) (i : ℕ) (rest : List ℕ) (domid : ID) (atr : ℕ) :
    Prop where
  free : s.free t = i :: rest
  home : Live s (.dom, GET_OBJID domid)
  cb : s'.cb = Function.update s.cb (t, i)
    ⟨MP_GEN_DOMIDPART domid ||| ID_OF t i, atr, false, s.serial (GET_OBJID domid)⟩
  cnt : ∀ d, Live s (.dom, d) → s'.objcnt d =
    if GET_OBJID domid = d then (s.objcnt d + 1) % 2 ^ 32 else s.objcnt d
  serial : ∀ j, Live s (.dom, j) → s'.serial j = s.serial j
  made : s.made ≤ s'.made
  free_eq : s'.free = Function.update s.free t rest
  new : t = .dom → s'.objcnt i = 0 ∧ s'.serial i = s.made ∧ s.made < s'.made

section Adds

variable {rest : List ℕ} {domid : ID} {atr : ℕ}

theorem Adds.self (adds : Adds s s' t i rest domid atr) : s'.cb (t, i) =
    ⟨MP_GEN_DOMIDPART domid ||| ID_OF t i, atr, false, s.serial (GET_OBJID domid)⟩ := by
  rw [adds.cb, Function.update_self]

theorem Adds.dead (adds : Adds s s' t i rest domid atr) (inv : DomInv cfg s) :
    i < cfg.num t ∧ ¬Live s (t, i) :=
  (inv.free t).2 i (adds.free ▸ List.mem_cons_self)

theorem Adds.ne (adds : Adds s s' t i rest domid atr) (inv : DomInv cfg s) (ho : Live s o) :
    o ≠ (t, i) :=
  fun e => (adds.dead inv).2 (e ▸ ho)

theorem Adds.keeps (adds : Adds s s' t i rest domid atr) (inv : DomInv cfg s) (ho : Live s o) :
    Live s' o :=
  (live_update adds.cb (adds.ne inv ho)).mpr ho

/-- An object is the new one, or an old one with all that was true of it. -/
theorem Adds.cases (adds : Adds s s' t i rest domid atr) (ho : Live s' o) : o = (t, i) ∨
    Live s o ∧ s'.cb o = s.cb o ∧ domOf s' o = domOf s o := by
  by_cases he : o = (t, i)
  · exact Or.inl he
  · exact Or.inr ⟨(live_update adds.cb he).mp ho, by rw [adds.cb, Function.update_of_ne he],
      domOf_update adds.cb he⟩

theorem Adds.id (adds : Adds s s' t i rest domid atr) (inv : DomInv cfg s) (fits : cfg.Fits) :
    MP_GEN_DOMIDPART domid ||| ID_OF t i = 2 ^ 24 + GET_OBJID domid * 2 ^ 16 + (i + minId t) :=
  newId_eq fits (inv.dom_lt fits adds.home) (adds.dead inv).1

theorem Adds.part (adds : Adds s s' t i rest domid atr) (inv : DomInv cfg s) (fits : cfg.Fits) :
    GET_DOMID (MP_GEN_DOMIDPART domid ||| ID_OF t i) = GET_OBJID domid := by
  have hi := (adds.dead inv).1
  have := fits.num_le t
  rw [adds.id inv fits]
  exact GET_DOMID_newId (inv.dom_lt fits adds.home) (by omega)

theorem Adds.domOf (adds : Adds s s' t i rest domid atr) (inv : DomInv cfg s) (fits : cfg.Fits) :
    SmpTKernel.domOf s' (t, i) = GET_OBJID domid := by
  unfold SmpTKernel.domOf
  rw [adds.self]
  exact adds.part inv fits

theorem Adds.rooted (adds : Adds s s' t i rest domid atr) (inv : DomInv cfg s) (fits : cfg.Fits)
    {j : ℕ} (hj : Live s' (.dom, j)) : Rooted s' j := by
  have hold (k : ℕ) (hk : Live s (.dom, k)) : Rooted s' k := by
    refine (inv.rooted k hk).congr (P := fun k => Live s (.dom, k)) (fun k hk => ?_)
      (fun k hk _ => inv.home _ hk) hk
    rw [adds.cb, Function.update_of_ne (adds.ne inv hk)]
  rcases adds.cases hj with he | ⟨hl, -⟩
  · refine .child hj ?_
    show Rooted s' (SmpTKernel.domOf s' (.dom, j))
    rw [he, adds.domOf inv fits]
    exact hold _ adds.home
  · exact hold j hl

theorem Adds.serial_inj (adds : Adds s s' t i rest domid atr) (inv : DomInv cfg s) {j k : ℕ}
    (hj : Live s' (.dom, j)) (hk : Live s' (.dom, k)) (he : s'.serial j = s'.serial k) : j = k := by
  rcases adds.cases hj with hj | ⟨hj, -⟩ <;> rcases adds.cases hk with hk | ⟨hk, -⟩
  · exact (Prod.mk.inj (hj.trans hk.symm)).2
  · obtain ⟨rfl, rfl⟩ := Prod.mk.inj hj
    rw [(adds.new rfl).2.1, adds.serial k hk] at he
    exact absurd he (inv.serial_lt k hk).ne'
  · obtain ⟨rfl, rfl⟩ := Prod.mk.inj hk
    rw [(adds.new rfl).2.1, adds.serial j hj] at he
    exact absurd he (inv.serial_lt j hj).ne
  · rw [adds.serial j hj, adds.serial k hk] at he
    exact inv.serial j k hj hk he

theorem Adds.serial_lt (adds : Adds s s' t i rest domid atr) (inv : DomInv cfg s) {j : ℕ}
    (hj : Live s' (.dom, j)) :
    s'.serial j < s'.made := by
  rcases adds.cases hj with he | ⟨hl, -⟩
  · obtain ⟨rfl, rfl⟩ := Prod.mk.inj he
    rw [(adds.new rfl).2.1]
    exact (adds.new rfl).2.2
  · rw [adds.serial j hl]
    exact (inv.serial_lt j hl).trans_le adds.made

theorem Adds.count (adds : Adds s s' t i rest domid atr) (inv : DomInv cfg s) (fits : cfg.Fits)
    (hd : Live s' (.dom, d)) :
    s'.objcnt d = countIn cfg s' d := by
  obtain ⟨hi, hdead⟩ := adds.dead inv
  have hx : (t, i) ∈ cfg.objects := DomCfg.mem_objects.mpr ⟨hi, (adds.ne inv inv.kernel_live).symm⟩
  have hne0 : MP_GEN_DOMIDPART domid ||| ID_OF t i ≠ 0 := by
    rw [adds.id inv fits]
    omega
  have hput := countIn_put adds.cb hx hdead hne0 d
  rw [show GET_DOMID _ = GET_OBJID domid from adds.part inv fits] at hput
  rcases adds.cases hd with he | ⟨hl, -⟩
  · -- nothing belongs to the new domain
    obtain ⟨rfl, rfl⟩ := Prod.mk.inj he
    have hnone : countIn cfg s d = 0 := by
      refine List.countP_eq_zero.mpr fun o _ h => ?_
      have h := of_decide_eq_true h
      exact hdead (h.2 ▸ inv.home o h.1)
    have hne : GET_OBJID domid ≠ d := fun e => hdead (e ▸ adds.home)
    rw [(adds.new rfl).1, hput, hnone, if_neg hne]
  · have hcount := inv.count d hl
    have hlen : countIn cfg s' d ≤ cfg.objects.length := List.countP_le_length
    have hle := fits.length_objects
    rw [adds.cnt d hl, hput, hcount]
    split_ifs at hput ⊢
    · exact Nat.mod_eq_of_lt (by omega)
    · rfl

theorem Adds.frees (adds : Adds s s' t i rest domid atr) (inv : DomInv cfg s) (t' : ObjType) :
    (s'.free t').Nodup ∧ ∀ j ∈ s'.free t', j < cfg.num t' ∧ ¬Live s' (t', j) := by
  obtain ⟨hnd, hdead⟩ := inv.free t'
  rw [adds.free_eq]
  by_cases he : t' = t
  · subst he
    rw [adds.free] at hnd hdead
    rw [Function.update_self]
    refine ⟨(List.nodup_cons.mp hnd).2, fun j hj => ?_⟩
    have hne : ((t', j) : ObjType × ℕ) ≠ (t', i) := fun e =>
      (List.nodup_cons.mp hnd).1 ((Prod.mk.inj e).2 ▸ hj)
    rw [live_update adds.cb hne]
    exact hdead j (List.mem_cons_of_mem i hj)
  · rw [Function.update_of_ne he]
    refine ⟨hnd, fun j hj => ?_⟩
    rw [live_update adds.cb fun e => he (Prod.mk.inj e).1]
    exact hdead j hj

theorem DomInv.create (inv : DomInv cfg s) (fits : cfg.Fits) (adds : Adds s s' t i rest domid atr) :
    DomInv cfg s' := by
  refine ⟨?_, fun t' j hj => ?_, fun o ho => ?_, fun j hj => adds.rooted inv fits hj,
    fun o ho => ?_, fun j k hj hk => adds.serial_inj inv hj hk, fun j hj => adds.serial_lt inv hj,
    fun d hd =>
      adds.count inv fits hd,
    adds.frees inv, fun o ho => ?_⟩
  · rw [adds.cb, Function.update_of_ne (adds.ne inv inv.kernel_live)]
    exact inv.kernel
  · rcases adds.cases hj with he | ⟨hl, hsame, hdom⟩
    · obtain ⟨rfl, rfl⟩ := Prod.mk.inj he
      rw [adds.domOf inv fits, adds.self]
      exact ⟨(adds.dead inv).1, adds.id inv fits⟩
    · rw [hsame, hdom]
      exact inv.id t' j hl
  · rcases adds.cases ho with rfl | ⟨hl, -, hdom⟩
    · rw [adds.domOf inv fits]
      exact adds.keeps inv adds.home
    · rw [hdom]
      exact adds.keeps inv (inv.home o hl)
  · rcases adds.cases ho with rfl | ⟨hl, hsame, hdom⟩
    · rw [adds.domOf inv fits, adds.self, adds.serial _ adds.home]
    · rw [hsame, hdom, adds.serial _ (inv.home o hl)]
      exact inv.owner o hl
  · by_cases he : o = (t, i)
    · rw [he, adds.self] at ho
      cases ho
    · rw [adds.cb, Function.update_of_ne he] at ho
      exact adds.keeps inv (inv.marked o ho)

end Adds

theorem DomInv.put (inv : DomInv cfg s) (fits : cfg.Fits) (ht : t ≠ .dom) {rest : List ℕ}
    (hfree : s.free t = i :: rest) {domid : ID} (hd : Live s (.dom, GET_OBJID domid)) (atr : ℕ) :
    DomInv cfg (putObject { s with free := Function.update s.free t rest } t i domid atr) := by
  refine inv.create fits ⟨hfree, hd, rfl, fun d _ => ?_, fun _ _ => rfl, Nat.le_refl _, rfl,
    fun e => absurd e ht⟩
  show Function.update s.objcnt (GET_OBJID domid) _ d = _
  rw [Function.update_apply]
  split_ifs with h h' h'
  · rw [h]
    rfl
  · exact absurd h.symm h'
  · exact absurd h'.symm h
  · rfl

theorem DomInv.putDom (inv : DomInv cfg s) (fits : cfg.Fits) {rest : List ℕ}
    (hfree : s.free .dom = i :: rest) {domid : ID} (hd : Live s (.dom, GET_OBJID domid)) (atr : ℕ) :
    let s₁ := putObject { s with free := Function.update s.free .dom rest } .dom i domid atr
    DomInv cfg { s₁ with
      objcnt := Function.update s₁.objcnt i 0
      serial := Function.update s₁.serial i s₁.made
      made := s₁.made + 1 } := by
  intro s₁
  have hdead : ¬Live s (.dom, i) := ((inv.free .dom).2 i (hfree ▸ List.mem_cons_self)).2
  have hne (j : ℕ) (hj : Live s (.dom, j)) : j ≠ i := fun e => hdead (e ▸ hj)
  refine inv.create fits ⟨hfree, hd, rfl, fun d hl => ?_, fun j hj => ?_, Nat.le_succ _, rfl,
    fun _ => ⟨Function.update_self i _ _, Function.update_self i _ _, Nat.lt_succ_self _⟩⟩
  · show Function.update (Function.update s.objcnt (GET_OBJID domid) _) i 0 d = _
    rw [Function.update_of_ne (hne d hl), Function.update_apply]
    split_ifs with h h' h'
    · rw [h]
      rfl
    · exact absurd h.symm h'
    · exact absurd h'.symm h
    · rfl
  · exact Function.update_of_ne (hne j hj) _ _

/-! ## Deletion -/

/-- A live object can go: it is not the kernel domain, and if it is a domain, nothing belongs to
it. -/
structure Goes (cfg : DomCfg) (s : DomState) (t : ObjType) (i : ℕ) : Prop where
  live : Live s (t, i)
  notKernel : (t, i) ≠ (.dom, 0)
  leaf : t = .dom → countIn cfg s i = 0

section Goes

variable {id : ID}

theorem dropObject_cb (s : DomState) (t : ObjType) (i : ℕ) (id : ID) :
    (dropObject s t i id).cb = Function.update s.cb (t, i) ⟨0, 0, false, 0⟩ := rfl

/-- What is there has been there before, with all that was true of it. -/
theorem live_dropObject (ho : Live (dropObject s t i id) o) :
    o ≠ (t, i) ∧ Live s o ∧ (dropObject s t i id).cb o = s.cb o ∧
      domOf (dropObject s t i id) o = domOf s o := by
  have he : o ≠ (t, i) := by
    rintro rfl
    refine ho ?_
    rw [dropObject_cb, Function.update_self]
  exact ⟨he, (live_update (dropObject_cb ..) he).mp ho, by
    rw [dropObject_cb, Function.update_of_ne he], domOf_update (dropObject_cb ..) he⟩

/-- No other live object belongs to the domain that goes. -/
theorem Goes.home_ne (goes : Goes cfg s t i) (inv : DomInv cfg s) (ho : Live s o)
    (hne : o ≠ (t, i)) :
    ((.dom, domOf s o) : ObjType × ℕ) ≠ (t, i) := by
  intro e
  obtain ⟨rfl, hdom⟩ := Prod.mk.inj e
  by_cases h0 : o = (.dom, 0)
  · -- the kernel domain belongs to itself
    subst h0
    have : domOf s (.dom, 0) = 0 := by
      unfold domOf
      rw [inv.kernel]
      rfl
    exact goes.notKernel (by rw [← hdom, this])
  · have hmem : o ∈ cfg.objects := DomCfg.mem_objects.mpr ⟨(inv.id o.1 o.2 ho).1, h0⟩
    exact countIn_eq_zero (goes.leaf rfl) hmem ho hdom

theorem Goes.count (goes : Goes cfg s t i) (inv : DomInv cfg s) (fits : cfg.Fits)
    (hid : GET_DOMID id = domOf s (t, i)) (hd : Live (dropObject s t i id) (.dom, d)) :
    (dropObject s t i id).objcnt d = countIn cfg (dropObject s t i id) d := by
  have hx : (t, i) ∈ cfg.objects :=
    DomCfg.mem_objects.mpr ⟨(inv.id t i goes.live).1, goes.notKernel⟩
  have hcount := inv.count d (live_dropObject hd).2.1
  have hdrop := countIn_drop (dropObject_cb s t i id) hx goes.live rfl d
  have hlen : countIn cfg s d ≤ cfg.objects.length := List.countP_le_length
  have hle := fits.length_objects
  show Function.update s.objcnt (INDEX .dom (mpGetDomidFromId s id)) _ d = _
  rw [inv.index_home fits goes.live hid]
  by_cases he : domOf s (t, i) = d
  · subst he
    rw [if_pos rfl] at hdrop
    rw [Function.update_self]
    have hint : (s.objcnt (domOf s (t, i)) : ℤ) - 1 =
        (countIn cfg (dropObject s t i id) (domOf s (t, i)) : ℕ) := by
      rw [hcount]
      omega
    rw [hint]
    exact UINT_natCast (by omega)
  · rw [if_neg he] at hdrop
    rw [Function.update_of_ne (Ne.symm he), hcount]
    omega

theorem Goes.frees (goes : Goes cfg s t i) (inv : DomInv cfg s) (t' : ObjType) :
    ((dropObject s t i id).free t').Nodup ∧
      ∀ j ∈ (dropObject s t i id).free t', j < cfg.num t' ∧
        ¬Live (dropObject s t i id) (t', j) := by
  obtain ⟨hnd, hdead⟩ := inv.free t'
  have hfree : (dropObject s t i id).free = Function.update s.free t (s.free t ++ [i]) := rfl
  rw [hfree]
  by_cases he : t' = t
  · subst he
    rw [Function.update_self]
    refine ⟨?_, fun j hj => ?_⟩
    · rw [← List.concat_eq_append]
      exact (List.nodup_concat (s.free t') i).mpr ⟨fun hm => (hdead i hm).2 goes.live, hnd⟩
    · rcases List.mem_append.mp hj with hj | hj
      · exact ⟨(hdead j hj).1, fun hlive => (hdead j hj).2 (live_dropObject hlive).2.1⟩
      · obtain rfl := List.mem_singleton.mp hj
        exact ⟨(inv.id t' j goes.live).1, fun hlive => (live_dropObject hlive).1 rfl⟩
  · rw [Function.update_of_ne he]
    exact ⟨hnd, fun j hj => ⟨(hdead j hj).1, fun hlive =>
      (hdead j hj).2 (live_dropObject hlive).2.1⟩⟩

theorem DomInv.drop (inv : DomInv cfg s) (fits : cfg.Fits) (goes : Goes cfg s t i)
    (hid : GET_DOMID id = domOf s (t, i)) : DomInv cfg (dropObject s t i id) := by
  refine ⟨?_, fun t' j hj => ?_, fun o ho => ?_, fun j hj => ?_, fun o ho => ?_,
    fun j k hj hk => inv.serial j k (live_dropObject hj).2.1 (live_dropObject hk).2.1,
    fun j hj => inv.serial_lt j (live_dropObject hj).2.1, fun d hd => goes.count inv fits hid hd,
    goes.frees inv, fun o ho => ?_⟩
  · rw [dropObject_cb, Function.update_of_ne goes.notKernel.symm]
    exact inv.kernel
  · obtain ⟨-, hl, hsame, hdom⟩ := live_dropObject hj
    rw [hsame, hdom]
    exact inv.id t' j hl
  · obtain ⟨hne, hl, -, hdom⟩ := live_dropObject ho
    rw [hdom, live_update (dropObject_cb ..) (goes.home_ne inv hl hne)]
    exact inv.home o hl
  · obtain ⟨hne, hl, -⟩ := live_dropObject hj
    refine (inv.rooted j hl).congr (P := fun k => ((.dom, k) : ObjType × ℕ) ≠ (t, i))
      (fun k hk => ?_)
      (fun k hk hne => goes.home_ne inv hk hne) hne
    rw [dropObject_cb, Function.update_of_ne hk]
  · obtain ⟨-, hl, hsame, hdom⟩ := live_dropObject ho
    rw [hsame, hdom]
    exact inv.owner o hl
  · by_cases he : o = (t, i)
    · rw [he, dropObject_cb, Function.update_self] at ho
      cases ho
    · rw [dropObject_cb, Function.update_of_ne he] at ho
      exact (live_update (dropObject_cb ..) he).mpr (inv.marked o ho)

end Goes

/-- The mark of a live task plays no part. -/
theorem DomInv.mark (inv : DomInv cfg s) (ho : Live s o) (stkfree : Bool) :
    DomInv cfg { s with cb := Function.update s.cb o { s.cb o with stkfree := stkfree } } := by
  have hid (o' : ObjType × ℕ) :
      (Function.update s.cb o { s.cb o with stkfree := stkfree } o').id = (s.cb o').id := by
    rw [Function.update_apply]
    split_ifs with h
    · rw [h]
    · rfl
  have hdom (o' : ObjType × ℕ) :
      (Function.update s.cb o { s.cb o with stkfree := stkfree } o').dom = (s.cb o').dom := by
    rw [Function.update_apply]
    split_ifs with h
    · rw [h]
    · rfl
  have hlive (o' : ObjType × ℕ) :
      Live { s with cb := Function.update s.cb o { s.cb o with stkfree := stkfree } } o' ↔
      Live s o' := by
    unfold Live
    rw [hid]
  have hdomOf (o' : ObjType × ℕ) :
      domOf { s with cb := Function.update s.cb o { s.cb o with stkfree := stkfree } } o' =
      domOf s o' := by
    unfold domOf
    rw [hid]
  constructor
  · exact (hid _).trans inv.kernel
  · intro t i hl
    rw [hdomOf, hid]
    exact inv.id t i ((hlive _).mp hl)
  · intro o' hl
    rw [hdomOf, hlive]
    exact inv.home o' ((hlive _).mp hl)
  · exact fun i hl => (inv.rooted i ((hlive _).mp hl)).congr (P := fun _ => True) (fun _ _ => hid _)
      (fun _ _ _ => trivial) trivial
  · intro o' hl
    rw [hdomOf, hdom]
    exact inv.owner o' ((hlive _).mp hl)
  · exact fun i j hi hj => inv.serial i j ((hlive _).mp hi) ((hlive _).mp hj)
  · exact fun i hi => inv.serial_lt i ((hlive _).mp hi)
  · intro d hd
    refine (inv.count d ((hlive _).mp hd)).trans (List.countP_congr fun o' _ => ?_)
    rw [decide_eq_true_iff, decide_eq_true_iff, hlive, hdomOf]
  · exact fun t => ⟨(inv.free t).1, fun i hi => ⟨((inv.free t).2 i hi).1, fun hl =>
      ((inv.free t).2 i hi).2 ((hlive _).mp hl)⟩⟩
  · intro o' ho'
    rw [hlive]
    by_cases he : o' = o
    · rwa [he]
    · refine inv.marked o' ?_
      change (Function.update s.cb o _ o').stkfree = true at ho'
      rwa [Function.update_of_ne he] at ho'

end SmpTKernel
