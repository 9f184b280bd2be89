import SmpTKernel.Lib.StableQueue
import SmpTKernel.Subsystem

/-!
# The registry of subsystems

What the subsystem control blocks and their links stand for is a list: the subsystems that are
defined, the latest one first. The chain of a priority is the part of the list that has it, and the
blocks of memory in use are those of the subsystems on the list. `tk_def_ssy` keeps this, and
answers as the list says.
-/

namespace SmpTKernel

open LinkedStack Fuel

/-- The subsystems that are defined, by the index of the control block, the latest first. -/
abbrev SsyReg := List (ℕ × T_DSSY)

namespace SsyReg

/-- What `tk_def_ssy` does to the registry. -/
def defSsy (cfg : SsyCfg) (ssid : ℤ) (pk_dssy : Option T_DSSY) (icalloc : Option ℕ) (reg : SsyReg) :
    ER × SsyReg :=
  if !cfg.chkSsyid ssid then (E_ID, reg)
  else
    match pk_dssy with
    | none =>
      if indexSsy ssid ∈ reg.map Prod.fst then (E_OK, reg.filter fun e => e.1 ≠ indexSsy ssid)
      else (E_NOEXS, reg)
    | some pk_dssy =>
      if pk_dssy.ssyatr ≠ 0 then (E_RSATR, reg)
      else if !cfg.chkSsypri pk_dssy.ssypri then (E_PAR, reg)
      else if ¬0 ≤ pk_dssy.resblksz then (E_PAR, reg)
      else if pk_dssy.resblksz > 0 ∧ icalloc = none then (E_NOMEM, reg)
      else if indexSsy ssid ∈ reg.map Prod.fst then (E_OBJ, reg)
      else (E_OK, (indexSsy ssid, pk_dssy) :: reg)

/-- The subsystems of the priority of index `i`. -/
def samePri (reg : SsyReg) (i : ℕ) : SsyReg := reg.filter fun e => e.2.ssypri = (i : ℤ) + 1

end SsyReg

open SsyReg

/-- The block that `Icalloc` returns is not in use. -/
def SsySys.Fresh (s : SsySys) (resblk : Option ℕ) : Prop := ∀ blk ∈ resblk, s.mem blk = none

/-- The block lies in the memory, and beside those in use. -/
def SsySys.Apart (s : SsySys) (resblk : Option ℕ) (sz : ℕ) : Prop :=
  ∀ blk ∈ resblk, blk + sz ≤ 2 ^ 32 ∧
    ∀ blk' sz', s.mem blk' = some sz' → blk + sz ≤ blk' ∨ blk' + sz' ≤ blk

/-- The blocks in use lie in the memory, and no two overlap. -/
structure BlocksApart (mem : ℕ → Option ℕ) : Prop where
  inside : ∀ blk sz, mem blk = some sz → blk + sz ≤ 2 ^ 32
  apart : ∀ blk sz blk' sz', mem blk = some sz → mem blk' = some sz' → blk ≠ blk' →
    blk + sz ≤ blk' ∨ blk' + sz' ≤ blk

namespace BlocksApart

variable {mem : ℕ → Option ℕ} {blk : ℕ}

theorem release (h : BlocksApart mem) (blk : ℕ) : BlocksApart (Function.update mem blk none) := by
  have hold {b sz : ℕ} (hb : Function.update mem blk none b = some sz) : mem b = some sz := by
    rw [Function.update_apply] at hb
    split_ifs at hb
    exact hb
  exact ⟨fun b sz hb => h.inside b sz (hold hb), fun b sz b' sz' hb hb' =>
    h.apart b sz b' sz' (hold hb) (hold hb')⟩

theorem take {s : SsySys} (h : BlocksApart s.mem) {sz : ℕ} (hsz : s.Apart (some blk) sz) :
    BlocksApart (Function.update s.mem blk (some sz)) := by
  obtain ⟨hin, hbeside⟩ := hsz blk rfl
  refine ⟨fun b n hb => ?_, fun b n b' n' hb hb' hne => ?_⟩
  · rw [Function.update_apply] at hb
    split_ifs at hb with hbb
    · obtain rfl := Option.some.inj hb
      exact hbb ▸ hin
    · exact h.inside b n hb
  · rw [Function.update_apply] at hb hb'
    split_ifs at hb hb' with hbb hbb' hbb'
    · exact absurd (hbb.trans hbb'.symm) hne
    · obtain rfl := Option.some.inj hb
      exact hbb ▸ hbeside b' n' hb'
    · obtain rfl := Option.some.inj hb'
      exact hbb' ▸ (hbeside b n hb).symm
    · exact h.apart b n b' n' hb hb' hne

end BlocksApart

/-- The tables hold the registry, and every block of memory in use belongs to one of its subsystems;
the blocks lie `apart` if `Icalloc` sees to that. -/
structure SsyInv (cfg : SsyCfg) (apart : Prop) (s : SsySys) (reg : SsyReg) : Prop where
  nodup : (reg.map Prod.fst).Nodup
  pri : ∀ e ∈ reg, cfg.chkSsypri e.2.ssypri = true
  chains : Stacks s.link s.ssypri_table fun i => (reg.samePri i).map Prod.fst
  ssycb : ∀ e ∈ reg, ∃ resblk, s.ssycb_table e.1 = e.2.ssycb resblk ∧
    (resblk = none ↔ ¬e.2.resblksz > 0)
  free : ∀ x, x ∉ reg.map Prod.fst → (s.ssycb_table x).svchdr = none
  used : ∀ blk, s.mem blk ≠ none ↔ ∃ e ∈ reg, (s.ssycb_table e.1).resblk = some blk
  own : ∀ e ∈ reg, ∀ e' ∈ reg, ∀ blk, (s.ssycb_table e.1).resblk = some blk →
    (s.ssycb_table e'.1).resblk = some blk → e.1 = e'.1
  sized : ∀ e ∈ reg, ∀ blk, (s.ssycb_table e.1).resblk = some blk →
    s.mem blk = some (cfg.resblkBytes e.2.resblksz)
  beside : apart → BlocksApart s.mem

variable {cfg : SsyCfg} {apart : Prop} {s s' : SsySys} {reg : SsyReg} {x : ℕ} {pk_dssy : T_DSSY}
  {resblk : Option ℕ} {sz : ℕ}

theorem mem_samePri {e : ℕ × T_DSSY} {i : ℕ} :
    e ∈ reg.samePri i ↔ e ∈ reg ∧ e.2.ssypri = (i : ℤ) + 1 := by
  rw [samePri, List.mem_filter, decide_eq_true_eq]

theorem chkSsypri_iff {ssypri : ℤ} :
    cfg.chkSsypri ssypri = true ↔ 1 ≤ ssypri ∧ ssypri ≤ cfg.max_ssypri :=
  decide_eq_true_iff

theorem ssypri_eq_iff {ssypri : ℤ} (h : cfg.chkSsypri ssypri = true) (i : ℕ) :
    ssypri = (i : ℤ) + 1 ↔ ssypriIndex ssypri = i := by
  have := chkSsypri_iff.mp h
  unfold ssypriIndex
  omega

theorem ssyInv_init (cfg : SsyCfg) (ssycb_table : ℕ → Ssycb) (link : ℕ → Option ℕ) (bytes : Bytes) :
    SsyInv cfg apart (SsySys.subsystemInitialize ssycb_table link bytes) [] where
  nodup := List.nodup_nil
  pri := by simp
  chains := stacks_nil link
  ssycb := by simp
  free _ _ := rfl
  used _ := by simp [SsySys.subsystemInitialize]
  own := by simp
  sized := by simp
  beside _ := ⟨nofun, nofun⟩

namespace SsyInv

theorem fst_inj (h : SsyInv cfg apart s reg) {e e' : ℕ × T_DSSY} (he : e ∈ reg) (he' : e' ∈ reg)
    (heq : e.1 = e'.1) :
    e = e' :=
  List.inj_on_of_nodup_map h.nodup he he' heq

theorem svchdr_eq_none_iff (h : SsyInv cfg apart s reg) (x : ℕ) :
    (s.ssycb_table x).svchdr = none ↔ x ∉ reg.map Prod.fst := by
  refine ⟨fun hn hx => ?_, h.free x⟩
  obtain ⟨e, he, rfl⟩ := List.mem_map.mp hx
  obtain ⟨resblk, hcb, -⟩ := h.ssycb e he
  rw [hcb] at hn
  exact Option.some_ne_none _ hn

/-! ## Registration -/

theorem samePri_cons (hpri : cfg.chkSsypri pk_dssy.ssypri = true) :
    (fun i => (samePri ((x, pk_dssy) :: reg) i).map Prod.fst) =
      Function.update (fun i => (reg.samePri i).map Prod.fst) (ssypriIndex pk_dssy.ssypri)
        (x :: (reg.samePri (ssypriIndex pk_dssy.ssypri)).map Prod.fst) := by
  funext i
  by_cases hi : i = ssypriIndex pk_dssy.ssypri
  · subst hi
    have : pk_dssy.ssypri = (ssypriIndex pk_dssy.ssypri : ℤ) + 1 := (ssypri_eq_iff hpri _).mpr rfl
    rw [Function.update_self, samePri, List.filter_cons, if_pos (decide_eq_true this)]
    rfl
  · have : ¬pk_dssy.ssypri = (i : ℤ) + 1 := fun c => hi ((ssypri_eq_iff hpri i).mp c).symm
    rw [Function.update_of_ne hi, samePri, List.filter_cons, if_neg (by simpa using this)]
    rfl

theorem newBlk_mem (blk : ℕ) :
    (s.newBlk resblk sz).mem blk ≠ none ↔ s.mem blk ≠ none ∨ resblk = some blk := by
  cases resblk with
  | none => simp [SsySys.newBlk]
  | some b =>
    by_cases hb : blk = b
    · subst hb
      simp [SsySys.newBlk]
    · simp [SsySys.newBlk, Function.update_of_ne hb, Ne.symm hb]

@[simp] theorem newBlk_ssycb_table : (s.newBlk resblk sz).ssycb_table = s.ssycb_table := by
  cases resblk <;> rfl

@[simp] theorem newBlk_link : (s.newBlk resblk sz).link = s.link := by cases resblk <;> rfl

@[simp] theorem newBlk_ssypri_table : (s.newBlk resblk sz).ssypri_table = s.ssypri_table := by
  cases resblk <;> rfl

/-- The block is freed again when the subsystem is there already. -/
theorem newBlk_ifree (fresh : s.Fresh resblk) (sz : ℕ) :
    ∃ bytes, (s.newBlk resblk sz).ifree resblk = { s with bytes := bytes } := by
  cases resblk with
  | none => exact ⟨s.bytes, rfl⟩
  | some blk =>
    have hnone : s.mem blk = none := fresh blk rfl
    refine ⟨memset0 blk sz s.bytes, ?_⟩
    simp only [SsySys.newBlk, SsySys.ifree, Function.update_idem, ← hnone, Function.update_eq_self]

theorem newBlk_mem_of_fresh (fresh : s.Fresh resblk) {blk : ℕ} (hblk : s.mem blk ≠ none) :
    (s.newBlk resblk sz).mem blk = s.mem blk := by
  cases resblk with
  | none => rfl
  | some b =>
    have hb : blk ≠ b := fun hb => hblk (fresh blk (congrArg some hb.symm))
    exact Function.update_of_ne hb _ _

theorem newBlk_beside (hs : BlocksApart s.mem) (hsz : s.Apart resblk sz) :
    BlocksApart (s.newBlk resblk sz).mem := by
  cases resblk with
  | none => exact hs
  | some blk => exact hs.take hsz

theorem register (h : SsyInv cfg apart s reg) (fresh : s.Fresh resblk)
    (hapart : apart → s.Apart resblk (cfg.resblkBytes pk_dssy.resblksz))
    (hsz : resblk = none ↔ ¬pk_dssy.resblksz > 0)
    (hx : x ∉ reg.map Prod.fst) (hpri : cfg.chkSsypri pk_dssy.ssypri = true) :
    ∃ s', (s.newBlk resblk (cfg.resblkBytes pk_dssy.resblksz)).register x pk_dssy resblk =
      (E_OK, s') ∧
      SsyInv cfg apart s' ((x, pk_dssy) :: reg) := by
  have hnone : (s.ssycb_table x).svchdr = none := h.free x hx
  refine ⟨_, by rw [SsySys.register, newBlk_ssycb_table, if_neg (not_not.mpr hnone)], ?_⟩
  have hne {e : ℕ × T_DSSY} (he : e ∈ reg) : e.1 ≠ x := by
    rintro rfl
    exact hx (List.mem_map_of_mem he)
  have hold {e : ℕ × T_DSSY} (he : e ∈ reg) :
      Function.update s.ssycb_table x (pk_dssy.ssycb resblk) e.1 = s.ssycb_table e.1 :=
    Function.update_of_ne (hne he) ..
  have hnew : Function.update s.ssycb_table x (pk_dssy.ssycb resblk) x = pk_dssy.ssycb resblk :=
    Function.update_self ..
  have hfresh {e : ℕ × T_DSSY} (he : e ∈ reg) {blk : ℕ} (hb : resblk = some blk) :
      (s.ssycb_table e.1).resblk ≠ some blk :=
    fun c => (h.used blk).mpr ⟨e, he, c⟩ (fresh blk hb)
  constructor
  case nodup => exact List.nodup_cons.mpr ⟨hx, h.nodup⟩
  case pri => exact List.forall_mem_cons.mpr ⟨hpri, h.pri⟩
  case chains =>
    rw [samePri_cons hpri, newBlk_link, newBlk_ssypri_table]
    refine h.chains.push (fun u hu => hx ?_) _
    obtain ⟨e, he, rfl⟩ := List.mem_map.mp hu
    exact List.mem_map_of_mem (mem_samePri.mp he).1
  case ssycb =>
    dsimp only
    refine List.forall_mem_cons.mpr ⟨⟨resblk, hnew, hsz⟩, fun e he => ?_⟩
    rw [hold he]
    exact h.ssycb e he
  case free =>
    intro y hy
    rw [List.map_cons, List.mem_cons, not_or] at hy
    dsimp only
    rw [Function.update_of_ne hy.1]
    exact h.free y hy.2
  case used =>
    intro blk
    dsimp only
    rw [newBlk_mem, h.used, List.exists_mem_cons_iff, hnew, or_comm]
    refine or_congr Iff.rfl (exists_congr fun e => and_congr_right fun he => ?_)
    rw [hold he]
  case own =>
    dsimp only
    intro e he e' he' blk hb hb'
    rcases List.mem_cons.mp he with rfl | he <;> rcases List.mem_cons.mp he' with rfl | he'
    · rfl
    · rw [hnew] at hb
      rw [hold he'] at hb'
      exact absurd hb' (hfresh he' hb)
    · rw [hnew] at hb'
      rw [hold he] at hb
      exact absurd hb (hfresh he hb')
    · rw [hold he] at hb
      rw [hold he'] at hb'
      exact h.own e he e' he' blk hb hb'
  case sized =>
    dsimp only
    intro e he blk hb
    rcases List.mem_cons.mp he with rfl | he
    · rw [hnew] at hb
      obtain rfl : resblk = some blk := hb
      exact Function.update_self ..
    · rw [hold he] at hb
      have hmem := h.sized e he blk hb
      rw [newBlk_mem_of_fresh fresh (by rw [hmem]; exact Option.some_ne_none _), hmem]
  case beside => exact fun ha => newBlk_beside (h.beside ha) (hapart ha)

/-! ## Deletion -/

theorem samePri_filter (h : SsyInv cfg apart s reg) (x i : ℕ) :
    (samePri (reg.filter fun e => e.1 ≠ x) i).map Prod.fst =
    ((reg.samePri i).map Prod.fst).erase x := by
  have hn : ((reg.samePri i).map Prod.fst).Nodup := h.nodup.sublist (List.filter_sublist.map _)
  rw [hn.erase_eq_filter, List.filter_map, samePri, samePri, List.filter_filter, List.filter_filter]
  refine congrArg _ (List.filter_congr fun e _ => ?_)
  simp [Bool.and_comm, bne, beq_eq_decide]

/-- A subsystem is in the chain of its priority and in no other one. -/
theorem samePri_erase (h : SsyInv cfg apart s reg) {e : ℕ × T_DSSY} (he : e ∈ reg) :
    (fun i => (samePri (reg.filter fun e' => e'.1 ≠ e.1) i).map Prod.fst) =
      Function.update (fun i => (reg.samePri i).map Prod.fst) (ssypriIndex e.2.ssypri)
        (((reg.samePri (ssypriIndex e.2.ssypri)).map Prod.fst).erase e.1) := by
  funext i
  rw [h.samePri_filter]
  by_cases hi : i = ssypriIndex e.2.ssypri
  · subst hi
    rw [Function.update_self]
  · rw [Function.update_of_ne hi]
    refine List.erase_of_not_mem fun hx => hi ?_
    obtain ⟨e', he', heq⟩ := List.mem_map.mp hx
    obtain ⟨he', hpri⟩ := mem_samePri.mp he'
    obtain rfl := h.fst_inj he' he heq
    exact ((ssypri_eq_iff (h.pri e' he') i).mp hpri).symm

theorem mem_samePri_self (h : SsyInv cfg apart s reg) {e : ℕ × T_DSSY} (he : e ∈ reg) :
    e ∈ reg.samePri (ssypriIndex e.2.ssypri) :=
  mem_samePri.mpr ⟨he, (ssypri_eq_iff (h.pri e he) _).mpr rfl⟩

@[simp] theorem ifree_ssycb_table : (s.ifree resblk).ssycb_table = s.ssycb_table := by
  cases resblk <;> rfl

@[simp] theorem ifree_link : (s.ifree resblk).link = s.link := by cases resblk <;> rfl

@[simp] theorem ifree_ssypri_table : (s.ifree resblk).ssypri_table = s.ssypri_table := by
  cases resblk <;> rfl

theorem ifree_mem (blk : ℕ) : (s.ifree resblk).mem blk ≠ none ↔ s.mem blk ≠ none ∧
    resblk ≠ some blk := by
  cases resblk with
  | none => simp [SsySys.ifree]
  | some b =>
    by_cases hb : blk = b
    · subst hb
      simp [SsySys.ifree]
    · simp [SsySys.ifree, Function.update_of_ne hb, Ne.symm hb]

theorem ifree_mem_of_ne {blk : ℕ} (hb : resblk ≠ some blk) :
    (s.ifree resblk).mem blk = s.mem blk := by
  cases resblk with
  | none => rfl
  | some b => exact Function.update_of_ne (fun hbb => hb (congrArg some hbb.symm)) _ _

theorem delete (h : SsyInv cfg apart s reg) (hx : x ∈ reg.map Prod.fst) :
    ∃ s', Returns (fun fuel => s.delete fuel x) (E_OK, s') ∧
      SsyInv cfg apart s' (reg.filter fun e => e.1 ≠ x) := by
  obtain ⟨e, he, rfl⟩ := List.mem_map.mp hx
  obtain ⟨resblk, hcb, -⟩ := h.ssycb e he
  obtain ⟨r, hr, hchains⟩ := h.chains.unlink (List.mem_map_of_mem (h.mem_samePri_self he))
  have hpri : (s.ssycb_table e.1).ssypri = e.2.ssypri := congrArg Ssycb.ssypri hcb
  have hblk : (s.ssycb_table e.1).resblk = resblk := congrArg Ssycb.resblk hcb
  have hsome : (s.ssycb_table e.1).svchdr ≠ none := fun c => (h.svchdr_eq_none_iff e.1).mp c hx
  refine ⟨s.removed e.1 r, (hr.map fun r => (E_OK, s.removed e.1 r)).congr fun fuel => ?_, ?_⟩
  · rw [SsySys.delete, if_neg hsome, hpri]
  rw [SsySys.removed, hblk]
  have hold {e' : ℕ × T_DSSY} (he' : e' ∈ reg.filter fun e' => e'.1 ≠ e.1) :
      Function.update s.ssycb_table e.1 (s.ssycb_table e.1).clear e'.1 = s.ssycb_table e'.1 :=
    Function.update_of_ne (of_decide_eq_true (List.mem_filter.mp he').2) ..
  have hreg {e' : ℕ × T_DSSY} (he' : e' ∈ reg.filter fun e' => e'.1 ≠ e.1) : e' ∈ reg :=
    List.mem_of_mem_filter he'
  constructor
  case nodup => exact h.nodup.sublist (List.filter_sublist.map _)
  case pri => exact fun e' he' => h.pri e' (hreg he')
  case chains =>
    rw [h.samePri_erase he, ifree_link, ifree_ssypri_table]
    exact hchains
  case ssycb =>
    rw [ifree_ssycb_table]
    intro e' he'
    dsimp only
    rw [hold he']
    exact h.ssycb e' (hreg he')
  case free =>
    intro y hy
    rw [ifree_ssycb_table]
    dsimp only
    by_cases hye : y = e.1
    · subst hye
      rw [Function.update_self]
      rfl
    · rw [Function.update_of_ne hye]
      refine h.free y fun hmem => hy ?_
      obtain ⟨e', he', rfl⟩ := List.mem_map.mp hmem
      exact List.mem_map_of_mem (List.mem_filter.mpr ⟨he', decide_eq_true hye⟩)
  case used =>
    intro blk
    rw [ifree_mem, ifree_ssycb_table]
    dsimp only
    rw [h.used]
    constructor
    · rintro ⟨⟨e', he', hb⟩, hne⟩
      have hne' : e'.1 ≠ e.1 := by
        intro c
        rw [c, hblk] at hb
        exact hne hb
      have hmem : e' ∈ reg.filter fun e' => e'.1 ≠ e.1 :=
        List.mem_filter.mpr ⟨he', decide_eq_true hne'⟩
      exact ⟨e', hmem, by rw [hold hmem]; exact hb⟩
    · rintro ⟨e', he', hb⟩
      rw [hold he'] at hb
      refine ⟨⟨e', hreg he', hb⟩, fun c => ?_⟩
      exact of_decide_eq_true (List.mem_filter.mp he').2 (h.own e' (hreg he') e he blk hb
        (hblk.trans c))
  case own =>
    rw [ifree_ssycb_table]
    dsimp only
    intro e₁ h₁ e₂ h₂ blk hb₁ hb₂
    rw [hold h₁] at hb₁
    rw [hold h₂] at hb₂
    exact h.own e₁ (hreg h₁) e₂ (hreg h₂) blk hb₁ hb₂
  case sized =>
    rw [ifree_ssycb_table]
    dsimp only
    intro e' he' blk hb
    rw [hold he'] at hb
    rw [ifree_mem_of_ne fun c => ?_]
    · exact h.sized e' (hreg he') blk hb
    · exact of_decide_eq_true (List.mem_filter.mp he').2 (h.own e' (hreg he') e he blk hb
        (hblk.trans c))
  case beside =>
    intro ha
    cases resblk with
    | none => exact h.beside ha
    | some blk => exact (h.beside ha).release blk

/-! ## Contents of the memory -/

theorem store (h : SsyInv cfg apart s reg) (bytes : Bytes) :
    SsyInv cfg apart { s with bytes := bytes } reg :=
  ⟨h.nodup, h.pri, h.chains, h.ssycb, h.free, h.used, h.own, h.sized, h.beside⟩

theorem cleanResblk (h : SsyInv cfg apart s reg) (idx : ℤ) (x : ℕ) :
    SsyInv cfg apart (s.cleanResblk idx x) reg := by
  unfold SsySys.cleanResblk
  split
  · exact h
  · exact h.store _

theorem runActs (h : SsyInv cfg apart s reg) (idx : ℤ) (acts : List SsyAct) :
    SsyInv cfg apart (SsySys.runActs idx acts s) reg := by
  induction acts generalizing s with
  | nil => exact h
  | cons act acts ih =>
    cases act with
    | clean x => exact ih (h.cleanResblk idx x)
    | startup => exact ih h
    | cleanup => exact ih h
    | event => exact ih h

/-! ## Every call -/

theorem defSsy (h : SsyInv cfg apart s reg) (ssid : ℤ) (pk_dssy : Option T_DSSY)
    {icalloc : Option ℕ} (fresh : s.Fresh icalloc)
    (hapart : apart → ∀ pk ∈ pk_dssy, s.Apart icalloc (cfg.resblkBytes pk.resblksz)) :
    ∃ s', Returns (fun fuel => s.tkDefSsy cfg fuel ssid pk_dssy icalloc)
      ((reg.defSsy cfg ssid pk_dssy icalloc).1, s') ∧
      SsyInv cfg apart s' (reg.defSsy cfg ssid pk_dssy icalloc).2 := by
  unfold SsySys.tkDefSsy SsyReg.defSsy
  by_cases hid : cfg.chkSsyid ssid = true
  case neg =>
    rw [Bool.not_eq_true] at hid
    simp only [hid, Bool.not_false, if_true]
    exact ⟨s, returns_const _, h⟩
  simp only [hid, Bool.not_true, Bool.false_eq_true, if_false]
  cases pk_dssy with
  | none =>
    by_cases hx : indexSsy ssid ∈ reg.map Prod.fst
    · simp only [hx, if_true]
      exact h.delete hx
    · simp only [hx, if_false]
      refine ⟨s, (returns_const _).congr fun fuel => ?_, h⟩
      rw [SsySys.delete, if_pos (h.free _ hx)]
  | some pk_dssy =>
    dsimp only
    split
    · exact ⟨s, returns_const _, h⟩
    split
    · exact ⟨s, returns_const _, h⟩
    rename_i hpri
    split
    · exact ⟨s, returns_const _, h⟩
    have hblk : (pk_dssy.resblksz > 0 ∧ (if pk_dssy.resblksz > 0 then icalloc else none) = none) ↔
        pk_dssy.resblksz > 0 ∧ icalloc = none := and_congr_right fun hsz => by rw [if_pos hsz]
    simp only [hblk]
    split
    · exact ⟨s, returns_const _, h⟩
    rename_i hmem
    have hfresh : s.Fresh (if pk_dssy.resblksz > 0 then icalloc else none) := by
      split
      · exact fresh
      · exact fun blk hb => absurd hb (Option.not_mem_none blk)
    have hbeside (ha : apart) :
        s.Apart (if pk_dssy.resblksz > 0 then icalloc else none)
        (cfg.resblkBytes pk_dssy.resblksz) := by
      split
      · exact hapart ha pk_dssy rfl
      · exact fun blk hb => absurd hb (Option.not_mem_none blk)
    have hsz : (if pk_dssy.resblksz > 0 then icalloc else none) = none ↔ ¬pk_dssy.resblksz > 0 := by
      split
      · rename_i hsz
        exact ⟨fun c => absurd ⟨hsz, c⟩ hmem, fun c => absurd hsz c⟩
      · rename_i hsz
        exact ⟨fun _ => hsz, fun _ => rfl⟩
    by_cases hx : indexSsy ssid ∈ reg.map Prod.fst
    · simp only [hx, if_true]
      obtain ⟨bytes, hfree⟩ := newBlk_ifree hfresh (cfg.resblkBytes pk_dssy.resblksz)
      refine ⟨_, (returns_const _).congr fun fuel => ?_, h.store bytes⟩
      have hsome := mt (h.svchdr_eq_none_iff (indexSsy ssid)).mp (not_not.mpr hx)
      rw [SsySys.register, newBlk_ssycb_table, if_pos hsome, hfree]
    · simp only [hx, if_false]
      obtain ⟨s', hs', hinv⟩ := h.register hfresh hbeside hsz hx (by simpa using hpri)
      exact ⟨s', (returns_const _).congr fun fuel => by rw [hs'], hinv⟩

end SsyInv

end SmpTKernel
