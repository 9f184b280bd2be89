import Mathlib.Data.Int.ModEq
import Mathlib.Tactic.Ring
import SmpTKernel.SubsystemInv

/-!
# Runs of subsystem definitions

After any definitions and deletions the calls answer as the registry does, the functions of all
subsystems are called in the order of the priorities, and the resource control blocks are neither
lost nor shared.
-/

namespace SmpTKernel

open LinkedStack Fuel StableQueue SsyReg

variable {cfg : SsyCfg} {apart : Prop} {s s' : SsySys} {reg : SsyReg}

/-- What the subsystems define and delete, the resource control blocks that `tk_cln_ssy` clears, and
what is stored in the memory. In the `apart` runs the blocks of memory that `Icalloc` returns lie
beside those in use. -/
inductive SsyRun (cfg : SsyCfg) (apart : Prop) : SsySys → SsyReg → Prop
  | init (ssycb_table : ℕ → Ssycb) (link : ℕ → Option ℕ) (bytes : Bytes) :
      SsyRun cfg apart (SsySys.subsystemInitialize ssycb_table link bytes) []
  | defSsy {s s' : SsySys} {reg : SsyReg} {ercd : ER} (run : SsyRun cfg apart s reg) (ssid : ℤ)
      (pk_dssy : Option T_DSSY) (icalloc : Option ℕ) (fresh : s.Fresh icalloc)
      (beside : apart → ∀ pk ∈ pk_dssy, s.Apart icalloc (cfg.resblkBytes pk.resblksz))
      (h : Returns (fun fuel => s.tkDefSsy cfg fuel ssid pk_dssy icalloc) (ercd, s')) :
      SsyRun cfg apart s' (reg.defSsy cfg ssid pk_dssy icalloc).2
  | clnSsy {s : SsySys} {reg : SsyReg} {ercd : ER} {acts : List SsyAct}
      (run : SsyRun cfg apart s reg) (ssid resid info : ℤ) (ddsp : Bool)
      (h : Returns (fun fuel => s.tkClnSsy cfg fuel ssid resid info ddsp) (ercd, acts)) :
      SsyRun cfg apart (SsySys.runActs (resid - 1) acts s) reg
  | store {s : SsySys} {reg : SsyReg} (run : SsyRun cfg apart s reg) (bytes : Bytes) :
      SsyRun cfg apart { s with bytes := bytes } reg

theorem SsyRun.inv (run : SsyRun cfg apart s reg) : SsyInv cfg apart s reg := by
  induction run with
  | init ssycb_table link bytes => exact ssyInv_init cfg ssycb_table link bytes
  | defSsy run ssid pk_dssy icalloc fresh beside h ih =>
    obtain ⟨s', hs', hinv⟩ := ih.defSsy ssid pk_dssy fresh beside
    obtain ⟨-, rfl⟩ := Prod.mk.inj (h.unique hs')
    exact hinv
  | clnSsy run ssid resid info ddsp h ih => exact ih.runActs _ _
  | store run bytes ih => exact ih.store bytes

/-- A subsystem of priority 2 with all functions and 8 bytes of resource control block. -/
def ssyPacket : T_DSSY := ⟨0, 2, 16, none, some 32, some 48, some 64, 8⟩

/-- A subsystem of priority 1, without such a block. -/
def ssyPacketFirst : T_DSSY := ⟨0, 1, 20, none, some 36, none, some 68, 0⟩

/-- A later subsystem of priority 2, with 5 bytes, which are rounded up. -/
def ssyPacketLater : T_DSSY := ⟨0, 2, 24, none, none, some 56, some 72, 5⟩

def ssyCfg : SsyCfg := ⟨4, 16, 2⟩

def newSsySys : SsySys :=
  SsySys.subsystemInitialize (fun _ => ⟨0, 0, none, none, none, none, none, 0, none⟩)
    (fun _ => none) fun _ => 7

/-- After the registration of the subsystem of index `x`. -/
def SsySys.defined (s : SsySys) (x : ℕ) (pk_dssy : T_DSSY) (resblk : Option ℕ) : SsySys :=
  ((s.newBlk resblk (ssyCfg.resblkBytes pk_dssy.resblksz)).register x pk_dssy resblk).2

def definedThree : SsySys :=
  ((newSsySys.defined 0 ssyPacket (some 1000)).defined 1 ssyPacketFirst none).defined 2
    ssyPacketLater (some 1016)

/-- Three subsystems are defined, and another definition of the first of them is refused. -/
def definedSsy : SsySys := definedThree.defined 0 ssyPacket (some 2000)

def definedReg : SsyReg := [(2, ssyPacketLater), (1, ssyPacketFirst), (0, ssyPacket)]

theorem definedThree_mem {blk sz : ℕ} (h : definedThree.mem blk = some sz) :
    (blk = 1000 ∨ blk = 1016) ∧ sz = 16 := by
  change Function.update (Function.update (fun _ => none) 1000 (some 16)) 1016 (some 16) blk =
    some sz at h
  rw [Function.update_apply, Function.update_apply] at h
  split_ifs at h with h₂ h₁
  · exact ⟨.inr h₂, (Option.some.inj h).symm⟩
  · exact ⟨.inl h₁, (Option.some.inj h).symm⟩

theorem definedSsy_run (apart : Prop) : SsyRun ssyCfg apart definedSsy definedReg := by
  have run₁ : SsyRun ssyCfg apart (newSsySys.defined 0 ssyPacket (some 1000)) [(0, ssyPacket)] := by
    refine .defSsy (.init _ _ _) 1 (some ssyPacket) (some 1000) (fun _ _ =>
      rfl) (fun _ pk hpk blk hblk => ?_)
      (returns_const (E_OK, newSsySys.defined 0 ssyPacket (some 1000)))
    obtain rfl := Option.some.inj hpk
    obtain rfl := Option.some.inj hblk
    exact ⟨by decide, nofun⟩
  have run₂ :=
    SsyRun.defSsy run₁ 2 (some ssyPacketFirst) none (fun _ h => absurd h (Option.not_mem_none _))
    (fun _ _ _ _ h => absurd h (Option.not_mem_none _))
    (returns_const (E_OK, (newSsySys.defined 0 ssyPacket (some 1000)).defined 1
      ssyPacketFirst none))
  have run₃ : SsyRun ssyCfg apart definedThree definedReg := by
    refine .defSsy run₂ 3 (some ssyPacketLater) (some 1016) (fun blk hblk => ?_)
      (fun _ pk hpk blk hblk => ?_)
      (returns_const (E_OK, definedThree))
    · obtain rfl := Option.some.inj hblk
      rfl
    · obtain rfl := Option.some.inj hpk
      obtain rfl := Option.some.inj hblk
      refine ⟨by decide, fun blk sz h => .inr ?_⟩
      change Function.update (fun _ => none) 1000 (some 16) blk = some sz at h
      rw [Function.update_apply] at h
      split_ifs at h with h₁
      obtain rfl := Option.some.inj h
      rw [h₁]
  refine .defSsy run₃ 1 (some ssyPacket) (some 2000) (fun blk hblk => ?_)
    (fun _ pk hpk blk hblk => ?_)
    (returns_const (E_OBJ, definedSsy))
  · obtain rfl := Option.some.inj hblk
    rfl
  · obtain rfl := Option.some.inj hpk
    obtain rfl := Option.some.inj hblk
    refine ⟨by decide, fun blk sz h => .inr ?_⟩
    obtain ⟨hblk, rfl⟩ := definedThree_mem h
    rcases hblk with rfl | rfl <;> decide

/-- **Every call answers as the registry does**, whatever was defined and deleted before, and the
links between the control blocks hold the registry. -/
theorem ssyRun_defSsy (run : SsyRun cfg apart s reg) (ssid : ℤ) (pk_dssy : Option T_DSSY)
    (icalloc : Option ℕ) (fresh : s.Fresh icalloc) :
    (Stacks s.link s.ssypri_table fun i => (reg.samePri i).map Prod.fst) ∧
      ∃ s', Returns (fun fuel => s.tkDefSsy cfg fuel ssid pk_dssy icalloc)
        ((reg.defSsy cfg ssid pk_dssy icalloc).1, s') := by
  have h := run.inv
  have hany : SsyInv cfg False s reg := { h with beside := False.elim }
  obtain ⟨s', hs', -⟩ := hany.defSsy ssid pk_dssy fresh False.elim
  exact ⟨h.chains, s', hs'⟩

/-- The first subsystem, which is the last one in the list of its priority, is deleted. -/
theorem ssyRun_defSsy_delete :
    (Stacks definedSsy.link definedSsy.ssypri_table fun i => (definedReg.samePri i).map Prod.fst) ∧
      ∃ s', Returns (fun fuel => definedSsy.tkDefSsy ssyCfg fuel 1 none none) (E_OK, s') :=
  ssyRun_defSsy (definedSsy_run False) 1 none none fun _ h => absurd h (Option.not_mem_none _)

/-- The blocks of memory in use are those of the subsystems that asked for one, and no two have the
same. -/
structure ResblksRight (s : SsySys) (reg : SsyReg) : Prop where
  used : ∀ blk, s.mem blk ≠ none ↔ ∃ e ∈ reg, (s.ssycb_table e.1).resblk = some blk
  asked : ∀ e ∈ reg, (s.ssycb_table e.1).resblk ≠ none ↔ e.2.resblksz > 0
  own : ∀ e ∈ reg, ∀ e' ∈ reg, ∀ blk, (s.ssycb_table e.1).resblk = some blk →
    (s.ssycb_table e'.1).resblk = some blk → e = e'

/-- **No block is lost and none is freed twice.** -/
theorem ssyRun_blocks (run : SsyRun cfg apart s reg) : ResblksRight s reg := by
  have h := run.inv
  refine ⟨h.used, fun e he => ?_, fun e he e' he' blk hb hb' =>
    h.fst_inj he he' (h.own e he e' he' blk hb hb')⟩
  obtain ⟨resblk, hcb, hsz⟩ := h.ssycb e he
  rw [hcb]
  exact (not_congr hsz).trans not_not

/-- The block of the refused definition is not in use. -/
theorem ssyRun_blocks_defined : ResblksRight definedSsy definedReg ∧ definedSsy.mem 1000 = some 16 ∧
    definedSsy.mem 1016 = some 16 ∧ definedSsy.mem 2000 = none :=
  ⟨ssyRun_blocks (definedSsy_run False), rfl, rfl, rfl⟩

/-! ## Order of the calls -/

namespace SsyReg

/-- The order of descending priorities: 1 is the highest one. -/
def descending (cfg : SsyCfg) (reg : SsyReg) : SsyReg :=
  (List.range cfg.numSsypri).flatMap reg.samePri

/-- The order of ascending priorities. -/
def ascending (cfg : SsyCfg) (reg : SsyReg) : SsyReg :=
  (List.range cfg.numSsypri).reverse.flatMap reg.samePri

end SsyReg

theorem exists_ssypri {ssypri : ℤ} (h : cfg.chkSsypri ssypri = true) :
    ∃ i ∈ List.range cfg.numSsypri, (i : ℤ) + 1 = ssypri := by
  have := chkSsypri_iff.mp h
  refine ⟨ssypriIndex ssypri, List.mem_range.mpr ?_, ((ssypri_eq_iff h _).mpr rfl).symm⟩
  unfold ssypriIndex SsyCfg.numSsypri
  omega

theorem SsyInv.descending (h : SsyInv cfg apart s reg) :
    Stable (fun e => e.2.ssypri) (reg.descending cfg) reg := by
  have hks : ((List.range cfg.numSsypri).map fun i : ℕ => (i : ℤ) + 1).Pairwise (· < ·) :=
    List.pairwise_map.mpr (List.pairwise_lt_range.imp fun h => by omega)
  have := stable_flatMap hks fun e he => List.mem_map.mpr (exists_ssypri (h.pri e he))
  rw [List.flatMap_map] at this
  exact this

theorem SsyInv.ascending (h : SsyInv cfg apart s reg) :
    Stable (fun e => OrderDual.toDual e.2.ssypri) (reg.ascending cfg) reg := by
  have hks : ((List.range cfg.numSsypri).reverse.map fun i : ℕ =>
      OrderDual.toDual ((i : ℤ) + 1)).Pairwise (· < ·) := by
    refine List.pairwise_map.mpr (List.pairwise_reverse.mpr
      (List.pairwise_lt_range.imp fun h => ?_))
    exact OrderDual.toDual_lt_toDual.mpr (by omega)
  have := stable_flatMap hks fun e he => by
    obtain ⟨i, hi, hpri⟩ := exists_ssypri (h.pri e he)
    exact List.mem_map.mpr ⟨i, List.mem_reverse.mpr hi, congrArg OrderDual.toDual hpri⟩
  rw [List.flatMap_map] at this
  exact this

theorem SsyInv.gather (h : SsyInv cfg apart s reg) (is : List ℕ) :
    Returns (fun fuel => s.gather fuel is) ((is.flatMap reg.samePri).map Prod.fst) := by
  induction is with
  | nil => exact returns_const _
  | cons i is ih =>
    have hi : Returns (fun fuel => walk s.link fuel (s.ssypri_table i))
        ((reg.samePri i).map Prod.fst) :=
      (h.chains.stack i).walk
    rw [List.flatMap_cons, List.map_append]
    exact hi.bind (g := fun l fuel => (s.gather fuel is).map (l ++ ·)) (ih.map _)

theorem mem_of_mem_flatMap {is : List ℕ} {e : ℕ × T_DSSY} (he : e ∈ is.flatMap reg.samePri) :
    e ∈ reg := by
  obtain ⟨i, -, he⟩ := List.mem_flatMap.mp he
  exact (mem_samePri.mp he).1

/-- What is done by control block is done by definition. -/
theorem SsyInv.flatMap_acts (h : SsyInv cfg apart s reg) (is : List ℕ) (f : Ssycb → ℕ → List SsyAct)
    (g : T_DSSY → ℕ → List SsyAct)
    (hfg : ∀ pk_dssy resblk x, f (pk_dssy.ssycb resblk) x = g pk_dssy x) :
    ((is.flatMap reg.samePri).map Prod.fst).flatMap (fun x => f (s.ssycb_table x) x) =
      (is.flatMap reg.samePri).flatMap fun e => g e.2 e.1 := by
  rw [List.flatMap_map]
  refine List.flatMap_congr fun e he => ?_
  obtain ⟨resblk, hcb, -⟩ := h.ssycb e (mem_of_mem_flatMap he)
  rw [hcb, hfg]

/-- What `tk_sta_ssy`, `tk_cln_ssy` and `tk_evt_ssy` call for all subsystems: each once, in the
order `L` or `L'` of the priorities, the one that was defined later before the others of its
priority. -/
structure SsyCallsRight (cfg : SsyCfg) (s : SsySys) (reg : SsyReg) (resid info : ℤ)
    (L L' : SsyReg) : Prop where
  once : (L.map Prod.fst).Nodup ∧ (L'.map Prod.fst).Nodup
  descending : Stable (fun e => e.2.ssypri) L reg
  ascending : Stable (fun e => OrderDual.toDual e.2.ssypri) L' reg
  startup : Returns (fun fuel => s.tkStaSsy cfg fuel 0 resid info false)
    (E_OK, L.flatMap fun e => startupActs e.2.startupfn e.1 resid info)
  cleanup : Returns (fun fuel => s.tkClnSsy cfg fuel 0 resid info false)
    (E_OK, L'.flatMap fun e => cleanupActs e.2.cleanupfn e.1 resid info)
  event : ∀ er evttyp, ∃ acts,
    acts = (if evttyp.tmod 2 = 0 then L' else L).flatMap
        (fun e => eventActs e.2.eventfn e.1 evttyp resid info) ∧
      Returns (fun fuel => s.tkEvtSsy cfg fuel er 0 evttyp resid info false)
        (latestError er acts, acts)

namespace SsyInv

theorem tkStaSsy (h : SsyInv cfg apart s reg) {resid : ℤ} (hres : cfg.chkSsyResid resid = true)
    (info : ℤ) :
    Returns (fun fuel => s.tkStaSsy cfg fuel 0 resid info false)
      (E_OK, (reg.descending cfg).flatMap fun e => startupActs e.2.startupfn e.1 resid info) := by
  have hacts :=
    h.flatMap_acts (List.range cfg.numSsypri) (fun c x => startupActs c.startupfn x resid info)
    (fun pk_dssy x => startupActs pk_dssy.startupfn x resid info) fun _ _ _ => rfl
  rw [SsyReg.descending, ← hacts]
  refine ((h.gather (List.range cfg.numSsypri)).map fun l => (E_OK, l.flatMap fun x =>
    startupActs (s.ssycb_table x).startupfn x resid info)).congr fun fuel => ?_
  simp [SsySys.tkStaSsy, hres]

theorem tkClnSsy (h : SsyInv cfg apart s reg) {resid : ℤ} (hres : cfg.chkSsyResid resid = true)
    (info : ℤ) :
    Returns (fun fuel => s.tkClnSsy cfg fuel 0 resid info false)
      (E_OK, (reg.ascending cfg).flatMap fun e => cleanupActs e.2.cleanupfn e.1 resid info) := by
  have hacts :=
    h.flatMap_acts (List.range cfg.numSsypri).reverse (fun c x =>
      cleanupActs c.cleanupfn x resid info)
    (fun pk_dssy x => cleanupActs pk_dssy.cleanupfn x resid info) fun _ _ _ => rfl
  rw [SsyReg.ascending, ← hacts]
  refine ((h.gather (List.range cfg.numSsypri).reverse).map fun l => (E_OK, l.flatMap fun x =>
    cleanupActs (s.ssycb_table x).cleanupfn x resid info)).congr fun fuel => ?_
  simp [SsySys.tkClnSsy, hres]

theorem tkEvtSsy (h : SsyInv cfg apart s reg) {resid : ℤ} (hres : cfg.chkSsyResid resid = true)
    (info : ℤ) (er : ℕ → ER) (evttyp : ℤ) :
    ∃ acts, acts = (if evttyp.tmod 2 = 0 then reg.ascending cfg else reg.descending cfg).flatMap
        (fun e => eventActs e.2.eventfn e.1 evttyp resid info) ∧
      Returns (fun fuel => s.tkEvtSsy cfg fuel er 0 evttyp resid info false)
        (latestError er acts, acts) := by
  refine ⟨_, rfl, ?_⟩
  have hacts (is : List ℕ) := h.flatMap_acts is (fun c x => eventActs c.eventfn x evttyp resid info)
    (fun pk_dssy x => eventActs pk_dssy.eventfn x evttyp resid info) fun _ _ _ => rfl
  by_cases hev : evttyp.tmod 2 = 0
  · rw [if_pos hev, SsyReg.ascending, ← hacts]
    refine ((h.gather (List.range cfg.numSsypri).reverse).map fun l =>
      let acts := l.flatMap fun x => eventActs (s.ssycb_table x).eventfn x evttyp resid info
      (latestError er acts, acts)).congr fun fuel => ?_
    simp [SsySys.tkEvtSsy, hres, hev]
  · rw [if_neg hev, SsyReg.descending, ← hacts]
    refine ((h.gather (List.range cfg.numSsypri)).map fun l =>
      let acts := l.flatMap fun x => eventActs (s.ssycb_table x).eventfn x evttyp resid info
      (latestError er acts, acts)).congr fun fuel => ?_
    simp [SsySys.tkEvtSsy, hres, hev]

end SsyInv

/-- **Calls for all subsystems**, after any definitions and deletions. -/
theorem ssyRun_calls (run : SsyRun cfg apart s reg) {resid : ℤ}
    (hres : cfg.chkSsyResid resid = true) (info : ℤ) :
    ∃ L L', SsyCallsRight cfg s reg resid info L L' :=
  have h := run.inv
  have honce {L : SsyReg} (hL : L.Perm reg) : (L.map Prod.fst).Nodup :=
    (hL.map Prod.fst).nodup_iff.mpr h.nodup
  ⟨reg.descending cfg, reg.ascending cfg, ⟨honce h.descending.perm, honce h.ascending.perm⟩,
    h.descending, h.ascending, h.tkStaSsy hres info, h.tkClnSsy hres info, h.tkEvtSsy hres info⟩

/-- Of the two subsystems of priority 2 the one defined later comes first. -/
theorem ssyRun_calls_defined : (∃ L L', SsyCallsRight ssyCfg definedSsy definedReg 1 0 L L') ∧
    definedSsy.tkStaSsy ssyCfg 4 0 1 0 false = some (E_OK, [.startup 1 36 1 0, .startup 0 32 1 0]) ∧
    definedSsy.tkClnSsy ssyCfg 4 0 1 0 false = some (E_OK,
      [.cleanup 2 56 1 0, .clean 2, .cleanup 0 48 1 0, .clean 0, .clean 1]) ∧
    definedSsy.tkEvtSsy ssyCfg 4 (fun x => if x = 1 then E_OK else -(x : ℤ) - 5) 0 1 1 0 false =
      some (-5, [.event 1 68 1 1 0, .event 2 72 1 1 0, .event 0 64 1 1 0]) :=
  ⟨ssyRun_calls (definedSsy_run False) rfl 0, rfl, rfl, rfl⟩

/-! ## Resource control blocks -/

/-- The resource control block of the group of index `idx`, in the block of the subsystem. -/
def SsySys.resblkOf (s : SsySys) (e : ℕ × T_DSSY) (idx : ℤ) : Set ℕ :=
  { a | ∃ blk, (s.ssycb_table e.1).resblk = some blk ∧
    blk + UINT (roundResblksz e.2.resblksz) * idx.toNat ≤ a ∧
    a < blk + UINT (roundResblksz e.2.resblksz) * idx.toNat + UINT (roundResblksz e.2.resblksz) }

/-- The size that `Icalloc` is asked for does not wrap. -/
def SsyReg.Sized (cfg : SsyCfg) (reg : SsyReg) : Prop :=
  ∀ e ∈ reg, cfg.max_resid * UINT (roundResblksz e.2.resblksz) < 2 ^ 32

/-- What `tk_cln_ssy` does to the memory: the resource control blocks of the group lie in the blocks
of their subsystems, beside all other blocks, and exactly they are cleared. -/
structure CleansRight (s : SsySys) (reg : SsyReg) (idx : ℤ) (s' : SsySys) : Prop where
  own : ∀ e ∈ reg, ∀ a ∈ s.resblkOf e idx, ∀ blk sz, s.mem blk = some sz →
    (blk ≤ a ∧ a < blk + sz ↔ (s.ssycb_table e.1).resblk = some blk)
  cleared : ∀ e ∈ reg, ∀ a ∈ s.resblkOf e idx, s'.bytes a = 0
  kept : ∀ a, (∀ e ∈ reg, a ∉ s.resblkOf e idx) → s'.bytes a = s.bytes a
  same : s' = { s with bytes := s'.bytes }

theorem runActs_cleanup (idx : ℤ) (cleanupfn : Option Fp) (x : ℕ) (resid info : ℤ)
    (acts : List SsyAct) (s : SsySys) :
    SsySys.runActs idx (cleanupActs cleanupfn x resid info ++ acts) s =
      SsySys.runActs idx acts (s.cleanResblk idx x) := by
  cases cleanupfn <;> rfl

theorem cleanResblk_frame (idx : ℤ) (x : ℕ) :
    ∃ bytes, s.cleanResblk idx x = { s with bytes := bytes } := by
  unfold SsySys.cleanResblk
  split
  · exact ⟨s.bytes, rfl⟩
  · exact ⟨_, rfl⟩

theorem runActs_frame (idx : ℤ) (acts : List SsyAct) :
    SsySys.runActs idx acts s = { s with bytes := (SsySys.runActs idx acts s).bytes } := by
  induction acts generalizing s with
  | nil => rfl
  | cons act acts ih =>
    cases act with
    | clean x =>
      obtain ⟨bytes, h⟩ := cleanResblk_frame (s := s) idx x
      change SsySys.runActs idx acts (s.cleanResblk idx x) =
        { s with bytes := (SsySys.runActs idx acts (s.cleanResblk idx x)).bytes }
      rw [ih, h]
    | startup => exact ih
    | cleanup => exact ih
    | event => exact ih

theorem UINT_add_mul {blk : ℕ} {sz idx : ℤ} (hidx : 0 ≤ idx)
    (h : blk + UINT sz * idx.toNat < 2 ^ 32) :
    UINT (blk + sz * idx) = blk + UINT sz * idx.toNat := by
  have hsz : (UINT sz : ℤ) = sz % 2 ^ 32 := Int.toNat_of_nonneg (Int.emod_nonneg sz (by decide))
  have hidx' : (idx.toNat : ℤ) = idx := Int.toNat_of_nonneg hidx
  have hcast : ((blk + UINT sz * idx.toNat : ℕ) : ℤ) = blk + sz % 2 ^ 32 * idx := by
    rw [Nat.cast_add, Nat.cast_mul, hsz, hidx']
  have hmod : (blk + sz * idx) % 2 ^ 32 = ((blk + UINT sz * idx.toNat : ℕ) : ℤ) % 2 ^ 32 := by
    rw [hcast]
    exact (((Int.mod_modEq sz (2 ^ 32)).mul_right idx).add_left (blk : ℤ)).symm
  have hlt : ((blk + UINT sz * idx.toNat : ℕ) : ℤ) < 2 ^ 32 := by exact_mod_cast h
  have hword : UINT (blk + sz * idx) = ((blk + sz * idx) % 2 ^ 32).toNat := rfl
  rw [hword, hmod, Int.emod_eq_of_lt (Int.natCast_nonneg _) hlt, Int.toNat_natCast]

namespace SsyInv

variable (h : SsyInv cfg True s reg) (sized : reg.Sized cfg) {idx : ℤ} (hidx : 0 ≤ idx ∧
  idx < cfg.max_resid)
include h sized hidx

/-- The block has room for the resource group, and lies in the memory. -/
theorem resblk_room {e : ℕ × T_DSSY} (he : e ∈ reg) {blk : ℕ}
    (hb : (s.ssycb_table e.1).resblk = some blk) (hne : UINT (roundResblksz e.2.resblksz) ≠ 0) :
    ∃ sz, s.mem blk = some sz ∧ blk + sz ≤ 2 ^ 32 ∧
      UINT (roundResblksz e.2.resblksz) * idx.toNat + UINT (roundResblksz e.2.resblksz) ≤ sz := by
  have hmem := h.sized e he blk hb
  refine ⟨_, hmem, (h.beside trivial).inside blk _ hmem, ?_⟩
  have hlt := sized e he
  unfold SsyCfg.resblkBytes
  generalize UINT (roundResblksz e.2.resblksz) = u at hne hlt ⊢
  have hu : (1 : ℤ) ≤ u := by omega
  have hmax : cfg.max_resid < 2 ^ 32 := lt_of_le_of_lt (le_mul_of_one_le_right (by omega) hu) hlt
  have hnum : UINT cfg.max_resid = cfg.max_resid.toNat := by
    have hcast : (cfg.max_resid.toNat : ℤ) = cfg.max_resid := Int.toNat_of_nonneg (by omega)
    rw [← hcast, UINT_natCast (by omega), Int.toNat_natCast]
  have hprod : cfg.max_resid.toNat * u < 2 ^ 32 := by
    have hnn : (cfg.max_resid.toNat : ℤ) = cfg.max_resid := Int.toNat_of_nonneg (by omega)
    have : ((cfg.max_resid.toNat * u : ℕ) : ℤ) < 2 ^ 32 := by
      push_cast
      rwa [hnn]
    exact_mod_cast this
  rw [hnum, Nat.mod_eq_of_lt hprod]
  calc u * idx.toNat + u = (idx.toNat + 1) * u := by ring
    _ ≤ cfg.max_resid.toNat * u := Nat.mul_le_mul_right u (by omega)

/-- One turn clears the resource control block of its subsystem. -/
theorem cleanResblk_bytes {e : ℕ × T_DSSY} (he : e ∈ reg) (a : ℕ) :
    (s.cleanResblk idx e.1).bytes a = 0 ∧ a ∈ s.resblkOf e idx ∨
      (s.cleanResblk idx e.1).bytes a = s.bytes a ∧ a ∉ s.resblkOf e idx := by
  cases hb : (s.ssycb_table e.1).resblk with
  | none =>
    refine .inr ⟨?_, fun ⟨blk, hblk, _⟩ => Option.some_ne_none blk (hblk.symm.trans hb)⟩
    unfold SsySys.cleanResblk
    rw [hb]
  | some blk =>
    have hcb : (s.ssycb_table e.1).resblksz = e.2.resblksz := by
      obtain ⟨resblk, hcb, -⟩ := h.ssycb e he
      exact congrArg Ssycb.resblksz hcb
    have hin : a ∈ s.resblkOf e idx ↔ blk + UINT (roundResblksz e.2.resblksz) * idx.toNat ≤ a ∧
        a < blk + UINT (roundResblksz e.2.resblksz) * idx.toNat + UINT
        (roundResblksz e.2.resblksz) := by
      refine ⟨fun ⟨blk', hb', ha⟩ => ?_, fun ha => ⟨blk, hb, ha⟩⟩
      obtain rfl := Option.some.inj (hb.symm.trans hb')
      exact ha
    have hcall :
      (s.cleanResblk idx e.1).bytes = memset0 (UINT (blk + roundResblksz e.2.resblksz * idx))
        (UINT (roundResblksz e.2.resblksz)) s.bytes := by
      unfold SsySys.cleanResblk
      rw [hb]
      dsimp only
      rw [hcb]
    rw [hcall, hin]
    unfold memset0
    by_cases hu : UINT (roundResblksz e.2.resblksz) = 0
    · rw [hu, if_neg (by omega)]
      exact .inr ⟨rfl, by omega⟩
    · obtain ⟨sz, -, hmem, hroom⟩ := h.resblk_room sized hidx he hb hu
      rw [UINT_add_mul hidx.1 (by omega)]
      split_ifs with ha
      · exact .inl ⟨rfl, ha⟩
      · exact .inr ⟨rfl, ha⟩

/-- All turns. -/
theorem runActs_bytes {l : SsyReg} (hl : ∀ e ∈ l, e ∈ reg) (resid info : ℤ) (a : ℕ) :
    ((∃ e ∈ l, a ∈ s.resblkOf e idx) →
      (SsySys.runActs idx (l.flatMap fun e => cleanupActs e.2.cleanupfn e.1 resid info) s).bytes a =
      0) ∧
    ((∀ e ∈ l, a ∉ s.resblkOf e idx) →
      (SsySys.runActs idx (l.flatMap fun e => cleanupActs e.2.cleanupfn e.1 resid info) s).bytes a =
      s.bytes a) := by
  induction l generalizing s with
  | nil => exact ⟨fun ⟨_, he, _⟩ => absurd he List.not_mem_nil, fun _ => rfl⟩
  | cons e l ih =>
    obtain ⟨he, hl⟩ := List.forall_mem_cons.mp hl
    obtain ⟨bytes, hframe⟩ := cleanResblk_frame (s := s) idx e.1
    have hof (e' : ℕ × T_DSSY) : (s.cleanResblk idx e.1).resblkOf e' idx = s.resblkOf e' idx := by
      rw [hframe]
      rfl
    obtain ⟨hzero, hkept⟩ := ih (h.cleanResblk idx e.1) hl
    simp only [hof] at hzero hkept
    rw [List.flatMap_cons, runActs_cleanup]
    have hturn := h.cleanResblk_bytes sized hidx he a
    constructor
    · rintro ⟨e', he', ha⟩
      by_cases hin : ∃ e'' ∈ l, a ∈ s.resblkOf e'' idx
      · exact hzero hin
      · rw [hkept fun e'' he'' ha'' => hin ⟨e'', he'', ha''⟩]
        rcases List.mem_cons.mp he' with rfl | he'
        · exact (hturn.resolve_right fun hout => hout.2 ha).1
        · exact absurd ⟨e', he', ha⟩ hin
    · intro hout
      obtain ⟨hnot, hout⟩ := List.forall_mem_cons.mp hout
      rw [hkept hout]
      exact (hturn.resolve_left fun hin => hnot hin.2).1

/-- A byte of a resource control block is in no other block. -/
theorem resblkOf_own {e : ℕ × T_DSSY} (he : e ∈ reg) {a : ℕ} (ha : a ∈ s.resblkOf e idx)
    {blk sz : ℕ} (hblk : s.mem blk = some sz) :
    blk ≤ a ∧ a < blk + sz ↔ (s.ssycb_table e.1).resblk = some blk := by
  obtain ⟨b, hb, hle, hlt⟩ := ha
  obtain ⟨n, hmem, -, hroom⟩ := h.resblk_room sized hidx he hb (by omega)
  constructor
  · rintro ⟨hle', hlt'⟩
    by_contra hne
    have hbeside := (h.beside trivial).apart b n blk sz hmem hblk fun hbb => hne (hbb ▸ hb)
    omega
  · intro hb'
    obtain rfl := Option.some.inj (hb.symm.trans hb')
    obtain rfl := Option.some.inj (hmem.symm.trans hblk)
    omega

end SsyInv

/-- **`tk_cln_ssy` clears the control block of the resource group** in the block of every subsystem
and nothing else. -/
theorem ssyRun_clean (run : SsyRun cfg True s reg) (sized : reg.Sized cfg) {resid : ℤ}
    (hres : cfg.chkSsyResid resid = true) (info : ℤ) :
    ∃ acts, Returns (fun fuel => s.tkClnSsy cfg fuel 0 resid info false) (E_OK, acts) ∧
      CleansRight s reg (resid - 1) (SsySys.runActs (resid - 1) acts s) := by
  have h := run.inv
  have hchk : 1 ≤ resid ∧ resid ≤ cfg.max_resid := of_decide_eq_true hres
  have hidx : 0 ≤ resid - 1 ∧ resid - 1 < cfg.max_resid := by omega
  have hmem : ∀ e, e ∈ reg.ascending cfg ↔ e ∈ reg := fun e => h.ascending.mem_iff
  have hbytes := h.runActs_bytes sized hidx (fun e he => (hmem e).mp he) resid info
  refine ⟨_, h.tkClnSsy hres info, fun e he a ha blk sz => h.resblkOf_own sized hidx he ha,
    fun e he a ha => ?_, fun a hout => ?_, runActs_frame _ _⟩
  · exact (hbytes a).1 ⟨e, (hmem e).mpr he, ha⟩
  · exact (hbytes a).2 fun e he => hout e ((hmem e).mp he)

/-- Two blocks that lie side by side, and the second resource group of two. -/
theorem ssyRun_clean_defined :
    (∃ acts, Returns (fun fuel => definedSsy.tkClnSsy ssyCfg fuel 0 2 0 false) (E_OK, acts) ∧
      CleansRight definedSsy definedReg 1 (SsySys.runActs 1 acts definedSsy)) ∧
    1008 ∈ definedSsy.resblkOf (0, ssyPacket) 1 ∧
      1024 ∈ definedSsy.resblkOf (2, ssyPacketLater) 1 := by
  refine ⟨ssyRun_clean (definedSsy_run True) ?_ rfl 0, ⟨1000, rfl, by decide, by decide⟩,
    ⟨1016, rfl, by decide, by decide⟩⟩
  intro e he
  simp only [definedReg, List.mem_cons, List.not_mem_nil, or_false] at he
  rcases he with rfl | rfl | rfl <;> decide

end SmpTKernel
